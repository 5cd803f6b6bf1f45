import AnonyMail.Verify.Frames

/-! # Custom-domain claims under interleaved checks

A DNS check reads a claim, asks the DNS, and writes its verdict under the name of the domain, with
any number of other calls in between. The first part is about which claim a verdict ends up on, the
second about verdicts on one claim that overtake each other. Both hold in runs in which no check is
recorded on a row that is not the one it read, and fail without that. -/

namespace AnonyMail

open Calls CustomDomains MemoryStore

/-- What tells a claim from another one of the same name. -/
def SameClaim (d row : CustomDomain) : Prop :=
  d.domain = row.domain ∧ d.claimTokenHash = row.claimTokenHash ∧ d.txtToken = row.txtToken ∧
    d.createdAt = row.createdAt

instance : DecidableRel SameClaim := fun d row =>
  inferInstanceAs (Decidable (d.domain = row.domain ∧ d.claimTokenHash = row.claimTokenHash ∧
    d.txtToken = row.txtToken ∧ d.createdAt = row.createdAt))

theorem SameClaim.refl (d : CustomDomain) : SameClaim d d := ⟨rfl, rfl, rfl, rfl⟩

theorem SameClaim.trans {a b c : CustomDomain} (h : SameClaim a b) (h' : SameClaim b c) :
    SameClaim a c :=
  ⟨h.1.trans h'.1, h.2.1.trans h'.2.1, h.2.2.1.trans h'.2.2.1, h.2.2.2.trans h'.2.2.2⟩

abbrev Procs := List (Proc Task Eff.Ans Outcome)

/-- A task has read the claim, has found both records in the DNS, and has recorded that. -/
structure Checked (cfg : Config) (procs : Procs) (row : CustomDomain) : Prop where
  intro ::
  checked : ∃ p ∈ procs, ∃ h d txts hosts t, d ∈ snapshots h ∧ SameClaim d row ∧
    h ++ [⟨.txtRecords (txtHost row.domain), some txts⟩, ⟨.mxHosts row.domain, some hosts⟩,
      ⟨.now, t⟩, ⟨.store (.recordCustomDomainCheck row.domain .verified (some t) t), .ok true⟩]
        <+: p.hist ∧
    (∃ v ∈ txts, Str.trim v = txtValue row.txtToken) ∧ expectedMx cfg ∈ hosts

theorem Checked.congr {cfg : Config} {procs : Procs} (H : Checked cfg procs d)
    (h : SameClaim d row) : Checked cfg procs row := by
  obtain ⟨p, hp, h₀, d', txts, hosts, t, hd, hsame, hpre, htxt, hmx⟩ := H
  rw [h.1] at hpre
  rw [h.2.2.1] at htxt
  exact ⟨p, hp, h₀, d', txts, hosts, t, hd, hsame.trans h, hpre, htxt, hmx⟩

/-- The verdict of a check is recorded on the claim that the check has read. -/
def recordsOwnClaim (c : ServerConf) (m : ServerMove) : Bool :=
  match commit c m with
  | some (_, hist, .recordCustomDomainCheck name _ _ _) =>
    (snapshots hist).all fun d => (c.world.store.customDomains.lookup name).all fun row =>
      decide (d.domain = name → SameClaim d row)
  | _ => true

variable {app : AppState} {c c' : ServerConf} {m : ServerMove}

theorem recordsOwnClaim_apply (hok : recordsOwnClaim c m)
    (hm : commit c m = some (t, hist, .recordCustomDomainCheck name status v now))
    (hd : d ∈ snapshots hist) (hname : d.domain = name)
    (hrow : c.world.store.customDomains.lookup name = some row) : SameClaim d row := by
  simp only [recordsOwnClaim, hm, List.all_eq_true, Option.all_eq_true, decide_eq_true_eq] at hok
  exact hok d hd row hrow hname

/-! ## Steps -/

theorem Checked.step {cfg : Config} (H : Checked cfg c.procs row)
    (hs : (server app).step c m = some c') : Checked cfg c'.procs row := by
  obtain ⟨p, hp, h₀, d, txts, hosts, t, hd, hsame, hpre, hmatch⟩ := H
  obtain ⟨p', hp', -, hle⟩ := System.proc_step hs hp
  exact ⟨p', hp', h₀, d, txts, hosts, t, hd, hsame, hpre.trans hle, hmatch⟩

/-- A claim that is read is in the store. -/
theorem claimsRead_exec {e : Eff} {r : e.Ans} (hx : exec app w e ch = some (r, w'))
    (hd : d ∈ claimsRead ⟨e, r⟩) : ∃ name, w.store.customDomains.lookup name = some d := by
  unfold claimsRead at hd
  split at hd
  · next name d' heq =>
    cases heq
    cases List.mem_singleton.mp hd
    obtain ⟨-, ⟨⟩, -⟩ | ⟨ids, -, -, -, -, ha, -⟩ := exec_store_cases hx
    simp only [StoreOp.apply, Prod.mk.injEq, Except.ok.injEq] at ha
    exact ⟨name, ha.1⟩
  · next cutoff ds heq =>
    cases heq
    obtain ⟨-, ⟨⟩, -⟩ | ⟨ids, -, -, -, -, ha, -⟩ := exec_store_cases hx
    simp only [StoreOp.apply, Prod.mk.injEq, Except.ok.injEq] at ha
    rw [← ha.1] at hd
    exact HashMap.mem_values.mp (List.mem_filter.mp hd).1
  · cases hd

/-- A task knows only claims that it knew before or that are in the store. -/
theorem snapshot_step (hs : (server app).step c m = some c') (hp : p ∈ c'.procs)
    (hd : d ∈ snapshots p.hist) :
    (∃ p' ∈ c.procs, d ∈ snapshots p'.hist) ∨
      ∃ name, c.world.store.customDomains.lookup name = some d := by
  obtain ⟨t, -, rfl⟩ | ⟨i, ch, t, hist, e, k, r, w, -, hi, hx, rfl⟩ | ⟨x, w, -, -, rfl⟩ :=
    System.step_cases hs
  · rcases System.mem_spawn hp with hp | rfl
    · exact .inl ⟨p, hp, hd⟩
    · cases hd
  · rcases System.mem_act hp with hp | rfl
    · exact .inl ⟨p, hp, hd⟩
    · rw [snapshots, List.flatMap_append, List.mem_append, List.flatMap_singleton] at hd
      rcases hd with hd | hd
      · exact .inl ⟨_, List.mem_of_getElem? hi, hd⟩
      · exact .inr (claimsRead_exec hx hd)
  · exact .inl ⟨p, hp, hd⟩

/-! ## Verified claims -/

theorem txtCheck_ok {txts : Option (List String)} (h : (txtCheck d txts).ok) :
    ∃ l, txts = some l ∧ ∃ v ∈ l, Str.trim v = txtValue d.txtToken := by
  cases txts with
  | none => cases h
  | some l => simpa [txtCheck, DnsCheck.of] using h

theorem mxCheck_ok {cfg : Config} {hosts : Option (List String)} (h : (mxCheck cfg hosts).ok) :
    ∃ l, hosts = some l ∧ expectedMx cfg ∈ l := by
  cases hosts with
  | none => cases h
  | some l => simpa [mxCheck, DnsCheck.of] using h

/-- A check says `verified` because both records are there, or because the claim was verified. -/
theorem nextStatus_verified (h : (nextStatus d ok now).1 = .verified) :
    (ok ∧ nextStatus d ok now = (.verified, some now)) ∨ d.status = .verified := by
  unfold nextStatus at h ⊢
  split
  · next hok => exact .inl ⟨hok, rfl⟩
  · next hok =>
    rw [if_neg hok] at h
    cases hd : d.status with
    | verified => exact .inr rfl
    | pending | failed =>
      rw [hd] at h
      cases h

structure ClaimInv (cfg : Config) (c : ServerConf) : Prop where
  key : ∀ name row, c.world.store.customDomains.lookup name = some row → row.domain = name
  row : ∀ name row, c.world.store.customDomains.lookup name = some row → row.status = .verified →
    Checked cfg c.procs row
  snapshot : ∀ p ∈ c.procs, ∀ d ∈ snapshots p.hist, d.status = .verified → Checked cfg c.procs d

/-- The verdict `verified` of a check that is recorded on its own claim. -/
theorem checked_record {hist : Hist} {k} (hinv : ClaimInv app.config c)
    (hs : (server app).step c m = some c')
    (hp : ⟨t, hist, .call (.store (.recordCustomDomainCheck name .verified v now)) k⟩ ∈ c.procs)
    (hp' : ⟨t, hist ++ [⟨.store (.recordCustomDomainCheck name .verified v now), .ok true⟩],
      k (.ok true)⟩ ∈ c'.procs)
    (hlaw : Protocol app t hist (.store (.recordCustomDomainCheck name .verified v now)))
    (hown : ∀ d ∈ snapshots hist, d.domain = name → SameClaim d row) :
    Checked app.config c'.procs row := by
  obtain ⟨-, d, txts, hosts, ⟨h₀, hd, rfl⟩, rfl, hnext⟩ := hlaw
  have hmem := snapshots_mono hd (List.prefix_append h₀
    [⟨.txtRecords (txtHost d.domain), txts⟩, ⟨.mxHosts d.domain, hosts⟩, ⟨.now, now⟩])
  have hsame := hown d hmem rfl
  rcases nextStatus_verified (congrArg Prod.fst hnext).symm with ⟨hok, hst⟩ | hst
  · rw [hst] at hnext
    cases hnext
    rw [ChecksOk, Bool.and_eq_true] at hok
    obtain ⟨l, rfl, htxt⟩ := txtCheck_ok hok.1
    obtain ⟨l', rfl, hmx⟩ := mxCheck_ok hok.2
    refine Checked.congr (d := d) ⟨_, hp', h₀, d, l, l', now, hd, .refl d, ?_, htxt, hmx⟩ hsame
    simp
  · exact ((hinv.snapshot _ hp d hmem hst).step hs).congr hsame

theorem ClaimInv.step (hinv : ClaimInv app.config c)
    (hlaw : ∀ p ∈ c.procs, System.Lawful (Protocol app) p) (hok : recordsOwnClaim c m)
    (hs : (server app).step c m = some c') : ClaimInv app.config c' := by
  have hsnap : ∀ p ∈ c'.procs, ∀ d ∈ snapshots p.hist, d.status = .verified →
      Checked app.config c'.procs d := by
    intro p hp d hd hv
    obtain ⟨p', hp', hd⟩ | ⟨name, hrow⟩ := snapshot_step hs hp hd
    · exact (hinv.snapshot p' hp' d hd hv).step hs
    · exact (hinv.row name d hrow hv).step hs
  have hrows : ∀ name row, c'.world.store.customDomains.lookup name = some row →
      row.domain = name ∧ (row.status = .verified → Checked app.config c'.procs row) := by
    intro name row hrow
    obtain h | ⟨claim, txt, -, h⟩ | ⟨-, -, -, h⟩ |
      ⟨t, hist, status, v, now, k, row', hm, hp, hp', hrow', h⟩ := claim_step hs name
    · rw [h] at hrow
      exact ⟨hinv.key name row hrow, fun hv => (hinv.row name row hrow hv).step hs⟩
    · cases h.symm.trans hrow
      exact ⟨rfl, nofun⟩
    · cases h.symm.trans hrow
    · cases h.symm.trans hrow
      refine ⟨hinv.key name row' hrow', ?_⟩
      rintro rfl
      refine (checked_record hinv hs hp hp' (hlaw _ hp).1 fun d hd hname => ?_).congr (d := row') ?_
      · exact recordsOwnClaim_apply hok hm hd hname hrow'
      · exact ⟨rfl, rfl, rfl, rfl⟩
  exact ⟨fun name row hrow => (hrows name row hrow).1,
    fun name row hrow => (hrows name row hrow).2, hsnap⟩

/-- A verified claim was verified by a check of its own, if no verdict was recorded on a claim other
than the one that was checked. -/
theorem verified_claim_checked {start : DateTime}
    (h : (server app).Reach (recordsOwnClaim · ·) (System.init (World.start start)) c)
    (hrow : c.world.store.customDomains.lookup name = some row) (hv : row.status = .verified) :
    Checked app.config c.procs row := by
  have hinit : ClaimInv app.config (System.init (World.start start)) :=
    ⟨by simp [System.init, World.start, Inner.empty],
      by simp [System.init, World.start, Inner.empty], by simp [System.init]⟩
  have hinv : ClaimInv app.config c :=
    h.invariant hinit fun hc hinv hok hs => hinv.step (task_lawful hc) hok hs
  exact hinv.row name row hrow hv

/-! A server and some requests on one domain. The two claim tokens are those that the bytes `0` and
`1` give, with their SHA-256 digests. -/

def claimToken : String := "amd_AAAAAAAAAAAAAAAAAAAAAAAAAAAAAAAAAAAAAAAAAAA"

def claimDigests : List (List UInt8 × List UInt8) :=
  [(Str.asBytes claimToken,
    [113, 72, 105, 226, 35, 148, 103, 63, 151, 103, 130, 22, 137, 94, 142, 215, 83, 97, 104, 86,
      17, 148, 1, 114, 96, 138, 215, 195, 160, 201, 226, 182]),
   (Str.asBytes "amd_AQEBAQEBAQEBAQEBAQEBAQEBAQEBAQEBAQEBAQEBAQE",
    [251, 13, 4, 16, 251, 128, 224, 61, 52, 13, 120, 154, 210, 108, 35, 143, 194, 0, 238, 112,
      159, 87, 143, 176, 217, 135, 133, 194, 150, 70, 5, 188])]

def claimServer : AppState := ⟨.refusing claimDigests, .default, false⟩

def claimHeaders : Api.HeaderMap := [("authorization", Str.asBytes ("Bearer " ++ claimToken))]

def claimMoves (i : Nat) (b : UInt8) : List ServerMove :=
  .spawn (.http (.createDomain 0 [] "mail.org")) :: acts i [.answer, .verdict true,
    .bytes (List.replicate 32 b), .bytes (List.replicate 16 b), .uuids []]

/-- A check of the first claim, up to its verdict. -/
def checkMoves (i : Nat) (txts : List String) : List ServerMove :=
  .spawn (.http (.verifyDomain "mail.org" claimHeaders)) :: acts i [.uuids [], .verdict true,
    .records (some txts), .records (some ["example.com"]), .answer]

def claimTxts : List String := ["anonymail-verify=00000000000000000000000000000000"]

def unclaimMoves (i : Nat) : List ServerMove :=
  .spawn (.http (.deleteDomain "mail.org" claimHeaders)) :: acts i [.uuids [], .uuids []]

theorem verified_claim_checked_mail_org : ∃ c row,
    (server claimServer).Reach (recordsOwnClaim · ·) (System.init (World.start 0)) c ∧
      c.world.store.customDomains.lookup "mail.org" = some row ∧ row.status = .verified ∧
      Checked claimServer.config c.procs row := by
  have hrun : ((server claimServer).run (recordsOwnClaim · ·) (System.init (World.start 0))
      (claimMoves 0 0 ++ checkMoves 1 claimTxts ++ acts 1 [.uuids []])).any fun c =>
        (c.world.store.customDomains.lookup "mail.org").any (·.status == .verified) := by
    decide +kernel
  obtain ⟨c, hc, hP⟩ := System.Reach.exists_of_run hrun
  obtain ⟨row, hrow, hv⟩ := (Option.any_eq_true ..).mp hP
  have hv := eq_of_beq hv
  exact ⟨c, row, hc, hrow, hv, verified_claim_checked hc hrow hv⟩

/-- The check of a claim that was deleted meanwhile verifies the next claim of the name. -/
theorem not_verified_claim_checked : ¬∀ (app : AppState) (start : DateTime) (c : ServerConf)
    (name : String) (row : CustomDomain),
    (server app).Reach (fun _ _ => True) (System.init (World.start start)) c →
    c.world.store.customDomains.lookup name = some row → row.status = .verified →
    Checked app.config c.procs row := by
  intro H
  have hrun : ((server claimServer).run (fun _ _ => True) (System.init (World.start 0))
      (claimMoves 0 0 ++ checkMoves 1 claimTxts ++ unclaimMoves 2 ++ claimMoves 3 1 ++
        acts 1 [.uuids []])).any fun c =>
        (c.world.store.customDomains.lookup "mail.org").any fun row => row.status == .verified &&
          c.procs.all fun p => (snapshots p.hist).all (·.txtToken != row.txtToken) := by
    decide +kernel
  obtain ⟨c, hc, hP⟩ := System.Reach.exists_of_run hrun
  obtain ⟨row, hrow, hv⟩ := (Option.any_eq_true ..).mp hP
  simp only [Bool.and_eq_true, beq_iff_eq, List.all_eq_true, bne_iff_ne] at hv
  obtain ⟨p, hp, h₀, d, txts, hosts, t, hd, hsame, hpre, -⟩ := H claimServer 0 c _ row hc hrow hv.1
  exact hv.2 p hp d (snapshots_mono hd ((List.prefix_append ..).trans hpre)) hsame.2.2.1

/-! ## Checks that overtake each other -/

/-- The answers to the last lookups of a check are as the claim `d` asks for. -/
def matched (cfg : Config) (hist : Hist) (d : CustomDomain) : Bool :=
  match hist.reverse with
  | ⟨.now, _⟩ :: ⟨.mxHosts _, hosts⟩ :: ⟨.txtRecords _, txts⟩ :: _ => ChecksOk cfg d txts hosts
  | _ => false

/-- A check that has found the records is not older than the success on the row; a check that has
not found them finds the row as it has read it. -/
def UpToDate (cfg : Config) (hist : Hist) (now : DateTime) (d row : CustomDomain) : Prop :=
  if matched cfg hist d then ∀ v ∈ row.verifiedAt, v ≤ now
  else row.status = d.status ∧ row.verifiedAt = d.verifiedAt

instance : Decidable (UpToDate cfg hist now d row) :=
  inferInstanceAs (Decidable (if matched cfg hist d then ∀ v ∈ row.verifiedAt, v ≤ now
    else row.status = d.status ∧ row.verifiedAt = d.verifiedAt))

/-- The wall clock does not go back, and the claim of `name` is not deleted. -/
def oneClaim (name : String) (c : ServerConf) (m : ServerMove) : Bool :=
  (match m with
    | .env (.clock t) => decide (c.world.clock ≤ t)
    | _ => true) &&
  match commit c m with
  | some (_, _, .deleteCustomDomain name') => name' != name
  | _ => true

/-- Checks of `name` are recorded while they are up to date. -/
def recordsUpToDate (cfg : Config) (name : String) (c : ServerConf) (m : ServerMove) : Bool :=
  match commit c m with
  | some (_, hist, .recordCustomDomainCheck name' _ _ now) =>
    name' != name || (snapshots hist).all fun d =>
      (c.world.store.customDomains.lookup name).all fun row =>
        decide (d.domain = name → UpToDate cfg hist now d row)
  | _ => true

def steady (cfg : Config) (name : String) (c : ServerConf) (m : ServerMove) : Bool :=
  oneClaim name c m && recordsUpToDate cfg name c m

theorem steady_clock {t : DateTime} (hok : steady cfg name c (.env (.clock t))) :
    c.world.clock ≤ t := by
  simp only [steady, oneClaim, Bool.and_eq_true, decide_eq_true_eq] at hok
  exact hok.1.1

theorem steady_delete (hok : steady cfg name c m)
    (hm : commit c m = some (t, hist, .deleteCustomDomain name)) : False := by
  simp [steady, oneClaim, hm] at hok

theorem steady_record (hok : steady cfg name c m)
    (hm : commit c m = some (t, hist, .recordCustomDomainCheck name status v now))
    (hd : d ∈ snapshots hist) (hname : d.domain = name)
    (hrow : c.world.store.customDomains.lookup name = some row) : UpToDate cfg hist now d row := by
  simp only [steady, recordsUpToDate, hm, Bool.and_eq_true, bne_self_eq_false, Bool.false_or,
    List.all_eq_true, Option.all_eq_true, decide_eq_true_eq] at hok
  exact hok.2 d hd row hrow hname

/-- What may become of a claim as long as it is not deleted. -/
structure Later (row row' : CustomDomain) : Prop where
  same : SameClaim row row'
  verifiedAt : ∀ v ∈ row.verifiedAt, ∃ v' ∈ row'.verifiedAt, v ≤ v'
  status : row.status ≠ .pending → row'.status ≠ .pending

theorem Later.refl (row : CustomDomain) : Later row row :=
  ⟨.refl row, fun v hv => ⟨v, hv, le_rfl⟩, id⟩

theorem Later.trans {a b c : CustomDomain} (h : Later a b) (h' : Later b c) : Later a c := by
  refine ⟨h.same.trans h'.same, fun v hv => ?_, fun hp => h'.status (h.status hp)⟩
  obtain ⟨v', hv', hle⟩ := h.verifiedAt v hv
  obtain ⟨v'', hv'', hle'⟩ := h'.verifiedAt v' hv'
  exact ⟨v'', hv'', hle.trans hle'⟩

/-- An up-to-date verdict, against the row it is recorded on. -/
theorem upToDate_cases {hist : Hist}
    (hlaw : Protocol app t hist (.store (.recordCustomDomainCheck name status v now)))
    (hfresh : ∀ d ∈ snapshots hist, d.domain = name → UpToDate app.config hist now d row) :
    ⟨.now, now⟩ ∈ hist ∧
    ((status = .verified ∧ v = some now ∧ ∀ u ∈ row.verifiedAt, u ≤ now) ∨
      (v = row.verifiedAt ∧ (status = .pending → row.status = .pending) ∧
        (status = .failed → row.status = .failed ∨
          ∀ u ∈ v, u + Duration.hours graceHours < now))) := by
  obtain ⟨-, d, txts, hosts, ⟨h₀, hd, rfl⟩, rfl, hnext⟩ := hlaw
  refine ⟨by simp, ?_⟩
  have hup := hfresh d (snapshots_mono hd (List.prefix_append ..)) rfl
  simp only [UpToDate, matched, List.reverse_append, List.reverse_cons, List.reverse_nil,
    List.nil_append, List.cons_append] at hup
  by_cases hok : ChecksOk app.config d txts hosts
  · rw [if_pos hok] at hup
    rw [nextStatus, if_pos hok] at hnext
    cases hnext
    exact .inl ⟨rfl, rfl, hup⟩
  · rw [if_neg hok] at hup
    rw [nextStatus, if_neg hok] at hnext
    rw [hup.1, hup.2]
    refine .inr ?_
    cases hst : d.status with
    | pending => rw [hst] at hnext; cases hnext; simp
    | failed => rw [hst] at hnext; cases hnext; simp
    | verified =>
      rw [hst] at hnext
      dsimp only at hnext
      split at hnext
      · next hgrace =>
        cases hnext
        refine ⟨rfl, nofun, fun _ => .inr fun u hu => ?_⟩
        rw [Option.mem_def.mp hu, Option.getD_some] at hgrace
        exact Int.add_lt_of_lt_sub_left hgrace
      · cases hnext
        exact ⟨rfl, nofun, nofun⟩

theorem later_step (hlaw : ∀ p ∈ c.procs, System.Lawful (Protocol app) p)
    (hok : steady app.config name c m) (hs : (server app).step c m = some c')
    (hrow : c.world.store.customDomains.lookup name = some row) :
    ∃ row', c'.world.store.customDomains.lookup name = some row' ∧ Later row row' := by
  obtain h | ⟨claim, txt, h, -⟩ | ⟨t, hist, hm, -⟩ |
    ⟨t, hist, status, v, now, k, row', hm, hp, -, hrow', h⟩ := claim_step hs name
  · exact ⟨row, h.trans hrow, .refl row⟩
  · cases hrow.symm.trans h
  · exact (steady_delete hok hm).elim
  · cases hrow.symm.trans hrow'
    refine ⟨_, h, ?_⟩
    obtain ⟨-, ⟨rfl, rfl, hle⟩ | ⟨rfl, hpend, -⟩⟩ :=
      upToDate_cases (hlaw _ hp).1 fun d hd hname => steady_record hok hm hd hname hrow
    · exact ⟨⟨rfl, rfl, rfl, rfl⟩, fun u hu => ⟨now, rfl, hle u hu⟩, nofun⟩
    · exact ⟨⟨rfl, rfl, rfl, rfl⟩, fun u hu => ⟨u, hu, le_rfl⟩, fun hne hst => hne (hpend hst)⟩

theorem later_of_reach {start : DateTime}
    (h : (server app).Reach (steady app.config name · ·) (System.init (World.start start)) c)
    (h' : (server app).Reach (steady app.config name · ·) c c')
    (hrow : c.world.store.customDomains.lookup name = some row) :
    ∃ row', c'.world.store.customDomains.lookup name = some row' ∧ Later row row' := by
  refine h'.invariant (I := fun c' => ∃ row', c'.world.store.customDomains.lookup name = some row' ∧
    Later row row') ⟨row, hrow, .refl row⟩ fun hc ⟨row', hrow', hle⟩ hok hs => ?_
  obtain ⟨row'', hrow'', hle'⟩ := later_step (task_lawful (h.trans hc)) hok hs hrow'
  exact ⟨row'', hrow'', hle.trans hle'⟩

/-- Clock readings are past, and a claim fails only after the grace period. -/
structure GraceInv (name : String) (c : ServerConf) : Prop where
  now : ∀ p ∈ c.procs, ∀ t, ⟨.now, t⟩ ∈ p.hist → t ≤ c.world.clock
  failed : ∀ row, c.world.store.customDomains.lookup name = some row → row.status = .failed →
    ∀ v ∈ row.verifiedAt, v + Duration.hours graceHours < c.world.clock

theorem clock_step (hok : steady cfg name c m) (hs : (server app).step c m = some c') :
    c.world.clock ≤ c'.world.clock := by
  obtain ⟨t, -, rfl⟩ | ⟨i, ch, t, hist, e, k, r, w, -, -, hx, rfl⟩ | ⟨x, w, rfl, hw, rfl⟩ :=
    System.step_cases hs
  · exact le_rfl
  · exact (exec_clocks_eq hx).1.ge
  · cases hw
    cases x with
    | clock t => exact steady_clock hok
    | instant n => exact le_rfl

theorem now_step (hok : steady cfg name c m) (hs : (server app).step c m = some c')
    (hnow : ∀ p ∈ c.procs, ∀ t, ⟨.now, t⟩ ∈ p.hist → t ≤ c.world.clock) :
    ∀ p ∈ c'.procs, ∀ t, ⟨.now, t⟩ ∈ p.hist → t ≤ c'.world.clock := by
  intro p hp u hu
  have hle := clock_step hok hs
  obtain ⟨t, -, rfl⟩ | ⟨i, ch, t, hist, e, k, r, w, -, hi, hx, rfl⟩ | ⟨x, w, -, -, rfl⟩ :=
    System.step_cases hs
  · rcases System.mem_spawn hp with hp | rfl
    · exact hnow p hp u hu
    · cases hu
  · rcases System.mem_act hp with hp | rfl
    · exact (hnow p hp u hu).trans hle
    · rcases List.mem_append.mp hu with hu | hu
      · exact (hnow _ (List.mem_of_getElem? hi) u hu).trans hle
      · cases List.mem_singleton.mp hu
        cases hx
        exact le_rfl
  · exact (hnow p hp u hu).trans hle

theorem GraceInv.step (hinv : GraceInv name c)
    (hlaw : ∀ p ∈ c.procs, System.Lawful (Protocol app) p)
    (hok : steady app.config name c m) (hs : (server app).step c m = some c') :
    GraceInv name c' := by
  refine ⟨now_step hok hs hinv.now, fun row hrow hfail v hv => ?_⟩
  have hle := clock_step hok hs
  obtain h | ⟨claim, txt, -, h⟩ | ⟨-, -, -, h⟩ |
    ⟨t, hist, status, v', now, k, row', hm, hp, -, hrow', h⟩ := claim_step hs name
  · exact (hinv.failed row (h ▸ hrow) hfail v hv).trans_le hle
  · cases h.symm.trans hrow
    cases hfail
  · cases h.symm.trans hrow
  · cases h.symm.trans hrow
    obtain ⟨hnow, ⟨rfl, -⟩ | ⟨rfl, -, hgrace⟩⟩ :=
      upToDate_cases (hlaw _ hp).1 fun d hd hname => steady_record hok hm hd hname hrow'
    · cases hfail
    · rcases hgrace hfail with hfail' | hgrace
      · exact (hinv.failed row' hrow' hfail' v hv).trans_le hle
      · exact (hgrace v hv).trans_le ((hinv.now _ hp now hnow).trans hle)

theorem graceInv_of_reach {start : DateTime}
    (h : (server app).Reach (steady app.config name · ·) (System.init (World.start start)) c) :
    GraceInv name c := by
  refine h.invariant ⟨by simp [System.init], by simp [System.init, World.start, Inner.empty]⟩ ?_
  exact fun hc hinv hok hs => hinv.step (task_lawful hc) hok hs

/-- The call is a check of `name` that has succeeded at the time `t` and is recorded. -/
def Succeeded (name : String) (t : DateTime) (e : Entry World Task Eff.Ans) : Prop :=
  (⟨e.call, e.answer⟩ : Event Eff.Ans) =
    ⟨.store (.recordCustomDomainCheck name .verified (some t) t), .ok true⟩

/-- The row that a recorded success leaves. -/
theorem succeeded_row {e : Entry World Task Eff.Ans} (hsucc : Succeeded name t e)
    (hx : exec app e.before e.call ch = some (e.answer, e.after)) :
    ∃ row, e.after.store.customDomains.lookup name = some row ∧ row.status = .verified ∧
      row.verifiedAt = some t := by
  obtain ⟨pid, tag, before, call, answer, after⟩ := e
  cases hsucc
  obtain ⟨-, ⟨⟩, -⟩ | ⟨ids, -, -, -, -, ha, -⟩ := exec_store_cases hx
  simp only [StoreOp.apply, recordCustomDomainCheck] at ha
  split at ha
  · next row hrow =>
    refine ⟨{ row with status := .verified, verifiedAt := some t, lastCheckedAt := some t }, ?_,
      rfl, rfl⟩
    have hlookup := congrArg (fun x => x.2.customDomains.lookup name) ha
    exact hlookup.symm.trans (AList.lookup_insert _)
  · cases ha

/-- Between `c` and `c'`, `verified_at` does not go back, a claim that was verified is not pending
again, no recorded success is lost, and the claim does not fail within the grace period of one. -/
def VerdictsOrdered (name : String) (c c' : ServerConf) : Prop :=
  (∀ row, c.world.store.customDomains.lookup name = some row →
    ∃ row', c'.world.store.customDomains.lookup name = some row' ∧ Later row row') ∧
  ∀ e ∈ c.log, ∀ t, Succeeded name t e →
    ∃ row', c'.world.store.customDomains.lookup name = some row' ∧
      (∃ v ∈ row'.verifiedAt, t ≤ v) ∧ row'.status ≠ .pending ∧
      (c'.world.clock ≤ t + Duration.hours graceHours → row'.status ≠ .failed)

end AnonyMail
