import AnonyMail.Verify.Programs
import AnonyMail.Verify.Throttle

/-! # What one client address creates in a day

A request that creates a mailbox or claims a domain has been counted once, for the address of its
client and the date it has read, and creates at most one. So no more are created than were let
through. -/

namespace AnonyMail

open Calls Api CustomDomains

/-! ## Counting -/

namespace Api.Quota

variable {q : Quota} {l : RuntimeLimits} {before : List DailyCall} {c : DailyCall}

/-- The call that counts against the quota, and whether it is granted. -/
def noted : Quota → Event Eff.Ans → Option (DailyCall × Bool)
  | addresses, ⟨.noteAddressCreated ip today, granted⟩ => some ((ip, today), granted)
  | domains, ⟨.noteDomainCreated ip today, granted⟩ => some ((ip, today), granted)
  | _, _ => none

/-- A mailbox is created, or a domain claimed. -/
def creates : Quota → Event Eff.Ans → Bool
  | addresses, ⟨.store (.createMailbox ..), .ok _⟩ => true
  | domains, ⟨.store (.createCustomDomain ..), .ok _⟩ => true
  | _, _ => false

/-- What has been granted to a task. -/
def grants (q : Quota) (h : List (Event Eff.Ans)) : List DailyCall :=
  h.filterMap fun ev => (q.noted ev).bind fun (call, granted) => if granted then some call else none

/-- The address of the client of a request that the quota is about. -/
def client (app : AppState) : Quota → Task → Option IpAddr
  | addresses, .http (.createAddress peer headers _) =>
    some (clientIp app.deps headers peer app.config.apiTrustProxyHeaders)
  | domains, .http (.createDomain peer headers _) =>
    some (clientIp app.deps headers peer app.config.apiTrustProxyHeaders)
  | _, _ => none

/-- The sweep keeps the entries of the date, and a call leaves those of other addresses alone. -/
theorem lookup_noteDaily_of_today {table : HashMap IpAddr (Int × Nat)} {cap n : Nat} {ip ip' : IpAddr}
    {today : Int} (hcap : cap ≠ 0) (hne : ip' ≠ ip) (h : table.lookup ip' = some (today, n)) :
    (noteDaily table cap ip today).2.lookup ip' = some (today, n) := by
  have hsweep : (sweepDays table today).lookup ip' = some (today, n) := by
    obtain heq | ⟨-, day, n', hday, hold⟩ := @lookup_sweepDays table ip' today
    · rw [heq, h]
    · cases h.symm.trans hday
      exact absurd rfl hold
  rw [noteDaily_eq hcap]
  split <;> exact (AList.lookup_insert_ne hne).trans hsweep

/-- As long as the dates come in order, no entry of the last date is lost. -/
theorem lookup_of_sorted (hcap : q.cap l ≠ 0) (hsorted : before.Pairwise fun a b => a.2 ≤ b.2)
    (hlast : ∀ a ∈ before, a.2 ≤ c.2) (hc : c ∈ before) :
    ∃ n, (q.table (q.after l before)).lookup c.1 = some (c.2, n) := by
  induction before using List.reverseRecOn with
  | nil => cases hc
  | append_singleton before x ih =>
    obtain ⟨hbefore, -, hcross⟩ := List.pairwise_append.mp hsorted
    have hx : x.2 = c.2 := by
      refine le_antisymm (hlast x (by simp)) ?_
      rcases List.mem_append.mp hc with hc | hc
      · exact hcross c hc x (List.mem_singleton_self x)
      · exact (List.mem_singleton.mp hc) ▸ le_rfl
    rw [table_concat]
    rcases eq_or_ne c.1 x.1 with hip | hip
    · rw [hip, lookup_noteDaily_self hcap, hx]
      exact ⟨_, rfl⟩
    · have hmem : c ∈ before := (List.mem_append.mp hc).resolve_right fun h =>
        hip (congrArg Prod.fst (List.mem_singleton.mp h))
      obtain ⟨n, hn⟩ := ih hbefore (fun a ha => hlast a (List.mem_append_left _ ha)) hmem
      rw [hx]
      exact ⟨n, lookup_noteDaily_of_today hcap hip hn⟩

theorem keeps_of_sorted {calls : List DailyCall} (hcap : q.cap l ≠ 0)
    (hsorted : calls.Pairwise fun a b => a.2 ≤ b.2) :
    ∀ before c rest, calls = before ++ c :: rest → q.Keeps l before c := by
  rintro before c rest rfl hc
  obtain ⟨hbefore, -, hcross⟩ := List.pairwise_append.mp hsorted
  exact lookup_of_sorted hcap hbefore (fun a ha => hcross a ha c List.mem_cons_self) hc

theorem granted_snoc {calls : List DailyCall} : q.granted l (calls ++ [c]) =
    if (q.note (q.after l calls) c).1 then q.granted l calls ++ [c] else q.granted l calls := by
  rw [granted, List.foldl_append]
  rfl

end Api.Quota

variable {app : AppState} {q : Quota} {l : RuntimeLimits} {w w' : LimitedWorld} {e : Eff} {r : e.Ans}
  {ch : Choice} {h hist : Hist} {log : List (Entry LimitedWorld Task Eff.Ans)} {ip : IpAddr}

/-! ## The counters over a run -/

/-- The calls of a run that count against the quota. -/
def notes (q : Quota) (log : List (Entry LimitedWorld Task Eff.Ans)) : List DailyCall :=
  log.filterMap fun x => (q.noted ⟨x.call, x.answer⟩).map (·.1)

/-- What has been granted in a run. -/
def allGrants (q : Quota) (log : List (Entry LimitedWorld Task Eff.Ans)) : List DailyCall :=
  q.grants (log.map fun x => ⟨x.call, x.answer⟩)

/-- The counters are those of the calls made so far. -/
structure Booked (q : Quota) (l : RuntimeLimits) (w : LimitedWorld)
    (log : List (Entry LimitedWorld Task Eff.Ans)) : Prop where
  table : q.table w.limits = q.table (q.after l (notes q log))
  cap : q.cap w.limits = q.cap l
  granted : allGrants q log = q.granted l (notes q log)

theorem Booked.frame (H : Booked q l w log) (htable : q.table w'.limits = q.table w.limits)
    (hcap : q.cap w'.limits = q.cap w.limits) : Booked q l w' log :=
  ⟨htable.trans H.table, hcap.trans H.cap, H.granted⟩

/-- A call that the quota is not about. -/
theorem daily_frame (hx : execLimited app w e ch = some (r, w')) (he : q.noted ⟨e, r⟩ = none) :
    q.table w'.limits = q.table w.limits ∧ q.cap w'.limits = q.cap w.limits := by
  by_cases hlimit : e.Limit
  · cases e with
    | noteAddressCreated ip today =>
      have hlimits : w'.limits = (w.limits.noteAddressCreated ip today).2 := by cases hx; rfl
      cases q with
      | addresses => cases he
      | domains => rw [hlimits]; exact ⟨rfl, rfl⟩
    | noteDomainCreated ip today =>
      have hlimits : w'.limits = (w.limits.noteDomainCreated ip today).2 := by cases hx; rfl
      cases q with
      | addresses => rw [hlimits]; exact ⟨rfl, rfl⟩
      | domains => cases he
    | tryBeginDomainVerify d =>
      have hlimits : w'.limits = (w.limits.tryBeginDomainVerify d w.rest.instant).2 := by cases hx; rfl
      obtain ⟨t, ht⟩ := RuntimeLimits.tryBeginDomainVerify_frame w.limits d w.rest.instant
      rw [hlimits, ht]
      cases q <;> exact ⟨rfl, rfl⟩
    | tryAcquireSse ip =>
      have hlimits : w'.limits = (w.limits.tryAcquireSse ip).2 := by cases hx; rfl
      obtain ⟨g, p, ht⟩ := RuntimeLimits.tryAcquireSse_frame w.limits ip
      rw [hlimits, ht]
      cases q <;> exact ⟨rfl, rfl⟩
    | _ => exact hlimit.elim
  · rw [(execLimited_outside hx hlimit).2.1]
    exact ⟨rfl, rfl⟩

/-- A call that the quota is about. -/
theorem noted_some (hx : execLimited app w e ch = some (r, w')) {call : DailyCall} {b : Bool}
    (he : q.noted ⟨e, r⟩ = some (call, b)) : q.note w.limits call = (b, w'.limits) := by
  cases q with
  | addresses =>
    cases e with
    | noteAddressCreated ip today =>
      cases he
      cases hx
      rfl
    | _ => cases he
  | domains =>
    cases e with
    | noteDomainCreated ip today =>
      cases he
      cases hx
      rfl
    | _ => cases he

theorem Booked.act (H : Booked q l w log) (hx : execLimited app w e ch = some (r, w')) (i : Nat)
    (t : Task) : Booked q l w' (log ++ [⟨i, t, w, e, r, w'⟩]) := by
  cases he : q.noted ⟨e, r⟩ with
  | none =>
    obtain ⟨htable, hcap⟩ := daily_frame hx he
    have hnotes : notes q (log ++ [⟨i, t, w, e, r, w'⟩]) = notes q log := by
      simp [notes, he]
    have hgrants : allGrants q (log ++ [⟨i, t, w, e, r, w'⟩]) = allGrants q log := by
      simp [allGrants, Quota.grants, he]
    have hframe := H.frame htable hcap
    exact ⟨hnotes ▸ hframe.table, hframe.cap, by rw [hnotes, hgrants, H.granted]⟩
  | some n =>
    obtain ⟨call, b⟩ := n
    have hnote := noted_some hx he
    have hnotes : notes q (log ++ [⟨i, t, w, e, r, w'⟩]) = notes q log ++ [call] := by
      simp [notes, he]
    have hgrants : allGrants q (log ++ [⟨i, t, w, e, r, w'⟩]) =
        if b then allGrants q log ++ [call] else allGrants q log := by
      cases b <;> simp [allGrants, Quota.grants, he]
    have htable := Quota.table_note (q := q) (l := w.limits) (c := call)
    have hfst := Quota.note_fst (q := q) (l := w.limits) (c := call)
    have hcap := Quota.cap_note (q := q) (l := w.limits) (c := call)
    rw [hnote, H.table, H.cap] at htable hfst
    rw [hnote] at hcap
    refine ⟨?_, hcap.trans H.cap, ?_⟩
    · rw [hnotes, Quota.table_concat]
      exact htable
    · rw [hnotes, hgrants, Quota.granted_snoc, Quota.note_fst, Quota.cap_after, ← hfst, H.granted]

theorem booked_of_reach {ok : LimitedConf → Move Task Choice LimitedTick → Prop} {c : LimitedConf}
    {clock : DateTime} (h : (limitedServer app).Reach ok (System.init (.start l clock)) c) :
    Booked q l c.world c.log := by
  induction h with
  | refl => exact ⟨rfl, rfl, rfl⟩
  | @tail c _ _ _ _ hs ih =>
    obtain ⟨t, -, rfl⟩ | ⟨i, ch, t, hist, e, k, r, w, -, -, hx, rfl⟩ | ⟨x, w, -, hx, rfl⟩ :=
      System.step_cases hs
    · exact ih
    · exact ih.act hx i t
    · obtain ⟨hlimits, -, -⟩ | ⟨i, guard, -, rfl⟩ := tick_cases hx
      · exact ih.frame (by rw [hlimits]) (by rw [hlimits])
      · obtain ⟨g, p, hdrop⟩ := RuntimeLimits.dropSse_frame c.world.limits guard
        exact ih.frame (by rw [hdrop]; cases q <;> rfl) (by rw [hdrop]; cases q <;> rfl)

/-- If the dates come in order, no more is granted for an address and a date than the cap allows. -/
theorem count_allGrants_le {ok : LimitedConf → Move Task Choice LimitedTick → Prop} {c : LimitedConf}
    {clock : DateTime} (h : (limitedServer app).Reach ok (System.init (.start l clock)) c)
    (hempty : q.table l = ∅) (hcap : q.cap l ≠ 0)
    (hdates : (notes q c.log).Pairwise fun a b => a.2 ≤ b.2) (call : DailyCall) :
    (allGrants q c.log).count call ≤ q.cap l := by
  rw [(booked_of_reach h).granted]
  exact (Quota.count_of_keeps hcap hempty (Quota.keeps_of_sorted hcap hdates)).2 call

/-! ## The requests -/

/-- The calls of these requests that the quotas are not about. -/
def Eff.Gate : Eff → Prop
  | .store op =>
    match op with
    | .getCustomDomain _ | .countActiveMailboxesByDevice .. => True
    | _ => False
  | .now | .randomBytes _ | .randomRange _ | .jwtDecode .. | .panic => True
  | _ => False

/-- A request is counted once, for its client, and creates once, when it has been let through. -/
structure Counts (q : Quota) (ip : IpAddr) (h : Hist) (e : Eff) : Prop where
  counted : ∀ r call granted, q.noted ⟨e, r⟩ = some (call, granted) →
    call.1 = ip ∧ ∀ ev ∈ h, q.noted ev = none
  created : ∀ r, q.creates ⟨e, r⟩ → (∃ day, q.grants h = [(ip, day)]) ∧ ¬h.any q.creates

/-- The request has been let through, and has created nothing yet. -/
structure Ready (q : Quota) (ip : IpAddr) (h : Hist) : Prop where
  granted : ∃ day, q.grants h = [(ip, day)]
  uncreated : ¬h.any q.creates

theorem Eff.Gate.quiet (he : e.Gate) (q : Quota) (r : e.Ans) :
    q.noted ⟨e, r⟩ = none ∧ q.creates ⟨e, r⟩ = false := by
  cases e with
  | store op => cases op <;> first | exact he.elim | (cases q <;> exact ⟨rfl, rfl⟩)
  | _ => first | exact he.elim | (cases q <;> exact ⟨rfl, rfl⟩)

theorem Eff.Gate.counts (he : e.Gate) : Counts q ip h e where
  counted r call granted hr := by rw [(he.quiet q r).1] at hr; cases hr
  created r hr := by rw [(he.quiet q r).2] at hr; cases hr

theorem gate_quiet {l : Hist} (hl : ∀ ev ∈ l, ev.1.Gate) : q.grants l = [] ∧ ¬l.any q.creates := by
  constructor
  · refine List.filterMap_eq_nil_iff.mpr fun ev hev => ?_
    rw [((hl ev hev).quiet q ev.2).1]
    rfl
  · intro hany
    obtain ⟨ev, hev, hcreates⟩ := List.any_eq_true.mp hany
    rw [((hl ev hev).quiet q ev.2).2] at hcreates
    cases hcreates

theorem grants_append (h h' : Hist) : q.grants (h ++ h') = q.grants h ++ q.grants h' :=
  List.filterMap_append

theorem Ready.append (H : Ready q ip h) {l : Hist} (hl : q.grants l = [] ∧ ¬l.any q.creates) :
    Ready q ip (h ++ l) := by
  obtain ⟨hnone, hun⟩ := hl
  refine ⟨?_, ?_⟩
  · rw [grants_append, hnone, List.append_nil]
    exact H.granted
  · rw [List.any_append, Bool.or_eq_true]
    exact fun hany => hany.elim H.uncreated hun

theorem gate_counts : ∀ h e, Eff.Gate e → Counts q ip h e := fun _ _ he => he.counts

theorem Ready.counts (H : Ready q ip h) (hnoted : ∀ r, q.noted ⟨e, r⟩ = none) : Counts q ip h e where
  counted r call granted hr := by rw [hnoted] at hr; cases hr
  created _ _ := ⟨H.granted, H.uncreated⟩

/-! The call that counts a request, after the gates. -/

theorem counts_noteAddress {l : Hist} (hl : ∀ ev ∈ l, ev.1.Gate) (ip : IpAddr) (day : Int) :
    Counts .addresses ip l (.noteAddressCreated ip day) where
  counted _ _ _ hr :=
    ⟨(congrArg (·.1.1) (Option.some.inj hr)).symm, fun ev hev => ((hl ev hev).quiet .addresses ev.2).1⟩
  created _ hr := nomatch hr

theorem counts_noteDomain {l : Hist} (hl : ∀ ev ∈ l, ev.1.Gate) (ip : IpAddr) (day : Int) :
    Counts .domains ip l (.noteDomainCreated ip day) where
  counted _ _ _ hr :=
    ⟨(congrArg (·.1.1) (Option.some.inj hr)).symm, fun ev hev => ((hl ev hev).quiet .domains ev.2).1⟩
  created _ hr := nomatch hr

theorem ready_concat {l : Hist} (hl : ∀ ev ∈ l, ev.1.Gate) {ev : Event Eff.Ans} {day : Int}
    (hnoted : q.noted ev = some ((ip, day), true)) (hcreates : q.creates ev = false) :
    Ready q ip (l ++ [ev]) := by
  obtain ⟨hnone, hun⟩ := @gate_quiet q l hl
  refine ⟨⟨day, ?_⟩, ?_⟩
  · rw [grants_append, hnone]
    simp [Quota.grants, hnoted]
  · rw [List.any_append, Bool.or_eq_true]
    exact fun hany => hany.elim hun (by simp [hcreates])

theorem ready_noteAddress {l : Hist} (hl : ∀ ev ∈ l, ev.1.Gate) (ip : IpAddr) (day : Int) :
    Ready .addresses ip (l ++ [⟨.noteAddressCreated ip day, true⟩]) := ready_concat hl rfl rfl

theorem ready_noteDomain {l : Hist} (hl : ∀ ev ∈ l, ev.1.Gate) (ip : IpAddr) (day : Int) :
    Ready .domains ip (l ++ [⟨.noteDomainCreated ip day, true⟩]) := ready_concat hl rfl rfl

namespace Api

/-! ### What the gates call -/

section
variable {hs : HeaderMap}

theorem gate_clientClaims : Only Eff.Gate (clientClaims app hs).run := by
  unfold clientClaims
  split
  · refine only_perform_bind trivial fun r => ?_
    split
    · exact only_pure
    · exact only_throw
    · exact only_throw
  · exact only_pure

theorem gate_attestationGate : Only Eff.Gate (attestationGate app hs).run := by
  refine only_bind gate_clientClaims fun client => ?_
  split
  · exact only_pure
  · split
    · split
      · exact only_pure
      · exact only_throw
    · exact only_throw

theorem gate_enforcedTier : Only Eff.Gate (enforcedTier app hs).run := by
  unfold enforcedTier
  split
  · exact only_pure
  · exact only_bind (only_bind gate_clientClaims fun _ => only_pure) fun _ => only_pure

theorem gate_authorizeMailbox {d : String} :
    Only Eff.Gate (authorizeMailboxOnCustomDomain app d hs).run := by
  refine only_bind (only_store trivial) fun o => only_bind only_okOr fun record =>
    only_bind only_okOr fun token => ?_
  split
  · exact only_throw
  · split
    · exact only_throw
    · exact only_pure

theorem gate_chooseDomain {policy : Option TierPolicy} {wanted : Option String} :
    Only Eff.Gate (Addresses.chooseDomain app policy hs wanted).run := by
  unfold Addresses.chooseDomain
  split
  · exact only_pure
  · dsimp only
    split
    · split
      · exact only_throw
      · exact only_pure
    · split
      · split
        · exact only_throw
        · exact only_bind gate_authorizeMailbox fun _ => only_pure
      · exact only_throw

theorem gate_chooseLocalPart {policy : Option TierPolicy} {wanted : Option String} :
    Only Eff.Gate (Addresses.chooseLocalPart app policy wanted).run := by
  unfold Addresses.chooseLocalPart
  split
  · exact only_pure
  · dsimp only
    split
    · exact only_throw
    · split
      · exact only_throw
      · split
        · exact only_throw
        · exact only_pure

theorem gate_checkMailboxCap {policy : Option TierPolicy} {hash : Option String} :
    Only Eff.Gate (Addresses.checkMailboxCap policy hash).run := by
  unfold Addresses.checkMailboxCap
  split
  · split
    · refine only_perform_bind trivial fun now => only_bind (only_store trivial) fun n => ?_
      split
      · exact only_throw
      · exact only_pure
    · exact only_pure
  · exact only_pure

theorem gate_expiryFromNow : Only Eff.Gate (Addresses.expiryFromNow app).run :=
  only_bind (only_orPanic trivial) fun _ => only_perform_bind trivial fun _ => only_orPanic trivial

theorem gate_generateToken {pre : String} : Only Eff.Gate (generateToken app.deps pre).run :=
  only_perform_bind trivial fun _ => only_pure

theorem gate_randomChars (n : Nat) : Only Eff.Gate (Addresses.randomChars n).run := by
  induction n with
  | zero => exact only_pure
  | succ n ih => exact only_perform_bind trivial fun _ => only_bind ih fun _ => only_pure

theorem gate_randomLocalPart : Only Eff.Gate Addresses.randomLocalPart.run :=
  only_bind (gate_randomChars _) fun _ => only_pure

end

/-! ### Creating a mailbox -/

variable {hs : HeaderMap} {peer : IpAddr}

theorem counts_createRandom {domain : String} {x : DateTime} {device : Option String} {n : Nat}
    (H : Ready .addresses ip h) :
    Safe (Counts .addresses ip) h (Addresses.createRandom app domain x device n).run := by
  induction n generalizing h with
  | zero => exact safe_throw
  | succ n ih =>
    refine bind_only gate_generateToken gate_counts fun l token hl => ?_
    refine bind_only gate_randomLocalPart gate_counts fun l' localPart hl' => ?_
    have H' := (H.append (gate_quiet hl)).append (gate_quiet hl')
    refine safe_perform_bind (H'.counts fun _ => rfl) fun r => ?_
    cases r with
    | ok mailbox => exact safe_pure
    | error e =>
      dsimp only
      split
      · exact ih (H'.append ⟨rfl, Bool.false_ne_true⟩)
      · exact safe_throw

theorem counts_createCustom {localPart domain : String} {x : DateTime} {device : Option String}
    (H : Ready .addresses ip h) :
    Safe (Counts .addresses ip) h (Addresses.createCustom app localPart domain x device).run := by
  refine bind_only gate_generateToken gate_counts fun l token hl => ?_
  refine safe_perform_bind ((H.append (gate_quiet hl)).counts fun _ => rfl) fun r => ?_
  cases r with
  | ok mailbox => exact safe_pure
  | error e =>
    dsimp only
    split
    · exact safe_throw
    · exact safe_throw

theorem counts_createAddress (req : CreateAddressRequest) :
    Safe (Counts .addresses (clientIp app.deps hs peer app.config.apiTrustProxyHeaders)) []
      (Addresses.create app peer hs req).run := by
  refine bind_only gate_attestationGate gate_counts fun l₁ client hl₁ => ?_
  refine bind_only gate_chooseDomain gate_counts fun l₂ domain hl₂ => ?_
  refine bind_only gate_chooseLocalPart gate_counts fun l₃ localPart hl₃ => ?_
  refine bind_only gate_checkMailboxCap gate_counts fun l₄ _ hl₄ => ?_
  refine safe_perform_bind (Eff.Gate.counts trivial) fun now => ?_
  have hgates : ∀ ev ∈ (([] ++ l₁ ++ l₂ ++ l₃ ++ l₄ ++ [⟨.now, now⟩] : Hist)), ev.1.Gate := by
    simp only [List.forall_mem_append, List.forall_mem_singleton]
    exact ⟨⟨⟨⟨⟨List.forall_mem_nil _, hl₁⟩, hl₂⟩, hl₃⟩, hl₄⟩, trivial⟩
  refine safe_perform_bind (counts_noteAddress hgates _ _) fun granted => ?_
  cases granted with
  | false => exact safe_throw
  | true =>
    have H := ready_noteAddress hgates (clientIp app.deps hs peer app.config.apiTrustProxyHeaders)
      now.dateNaive
    refine bind_only gate_expiryFromNow gate_counts fun l₅ x hl₅ => ?_
    have H' := H.append (gate_quiet hl₅)
    cases localPart with
    | some localPart => exact counts_createCustom H'
    | none => exact counts_createRandom H'

/-! ### Claiming a domain -/

theorem counts_claim (raw : String) {l : Hist} (hl : ∀ ev ∈ l, ev.1.Gate) :
    Safe (Counts .domains (clientIp app.deps hs peer app.config.apiTrustProxyHeaders)) l
      (CustomDomains.create.claim app peer hs raw).run := by
  unfold CustomDomains.create.claim
  split
  · exact safe_throw
  · refine safe_perform_bind (Eff.Gate.counts trivial) fun now => ?_
    have hgates : ∀ ev ∈ (l ++ [⟨.now, now⟩] : Hist), ev.1.Gate := by
      simp only [List.forall_mem_append, List.forall_mem_singleton]
      exact ⟨hl, trivial⟩
    refine safe_perform_bind (counts_noteDomain hgates _ _) fun granted => ?_
    cases granted with
    | false => exact safe_throw
    | true =>
      have H := ready_noteDomain hgates (clientIp app.deps hs peer app.config.apiTrustProxyHeaders)
        now.dateNaive
      refine bind_only gate_generateToken gate_counts fun l' token hl' => ?_
      refine safe_generateTxtToken_bind (Eff.Gate.counts trivial) fun bs => ?_
      have H' := (H.append (gate_quiet hl')).append (q := .domains) (l := [⟨.randomBytes 16, bs⟩])
        ⟨rfl, Bool.false_ne_true⟩
      refine safe_perform_bind (H'.counts fun _ => rfl) fun r => ?_
      cases r with
      | ok record => exact safe_pure
      | error e =>
        dsimp only
        split
        · exact safe_throw
        · exact safe_throw

theorem counts_createDomain (raw : String) :
    Safe (Counts .domains (clientIp app.deps hs peer app.config.apiTrustProxyHeaders)) []
      (CustomDomains.create app peer hs raw).run := by
  refine bind_only gate_attestationGate gate_counts fun l₁ _ hl₁ => ?_
  refine bind_only gate_enforcedTier gate_counts fun l₂ tier hl₂ => ?_
  have hgates : ∀ ev ∈ ([] ++ l₁ ++ l₂ : Hist), ev.1.Gate := by
    simp only [List.forall_mem_append]
    exact ⟨⟨List.forall_mem_nil _, hl₁⟩, hl₂⟩
  cases tier with
  | none => exact counts_claim raw hgates
  | some tier =>
    dsimp only
    split
    · exact safe_throw
    · exact counts_claim raw hgates

end Api

/-! ## The server -/

/-- What a request of the quota has created, each under the address and the date that it was counted
for. -/
def creations (app : AppState) (q : Quota) (p : Proc Task Eff.Ans Outcome) : List DailyCall :=
  if (q.client app p.tag).isSome then
    (List.replicate (p.hist.countP q.creates) (q.grants p.hist)).flatten
  else []

theorem counts_task (q : Quota) (t : Task) :
    Safe (fun h e => ∀ ip, q.client app t = some ip → Counts q ip h e) [] (t.prog app) := by
  have hany {p : Run Outcome} (ht : q.client app t = none) :
      Safe (fun h e => ∀ ip, q.client app t = some ip → Counts q ip h e) [] p := by
    refine Safe.imp ⟨Prog.obeys_trivial⟩ fun _ _ _ ip hip => ?_
    rw [ht] at hip
    cases hip
  cases t with
  | http req =>
    cases req with
    | createAddress peer hs body =>
      cases q with
      | addresses =>
        refine Safe.map (Safe.imp (safe_map (Api.counts_createAddress _)) fun _ _ h ip hip => ?_)
        exact Option.some.inj hip ▸ h
      | domains => exact hany rfl
    | createDomain peer hs d =>
      cases q with
      | addresses => exact hany rfl
      | domains =>
        refine Safe.map (Safe.imp (Φ := Counts .domains
          (clientIp app.deps hs peer app.config.apiTrustProxyHeaders)) ?_ fun _ _ h ip hip =>
            Option.some.inj hip ▸ h)
        change Safe _ [] (ifCustomDomains app _).run
        rw [ifCustomDomains]
        split
        · exact safe_map (Api.counts_createDomain d)
        · exact safe_throw
    | _ => exact hany (by cases q <;> rfl)
  | _ => exact hany (by cases q <;> rfl)

/-- What a request has created, it has been counted for: one thing, once. -/
theorem creations_of_counts {p : Proc Task Eff.Ans Outcome} (hip : q.client app p.tag = some ip)
    (hkept : ∀ h₁ e r h₂, p.hist = h₁ ++ ⟨e, r⟩ :: h₂ → Counts q ip h₁ e) :
    (p.hist.countP q.creates = 0 ∧ creations app q p = []) ∨
      p.hist.countP q.creates = 1 ∧
        ∃ day, q.grants p.hist = [(ip, day)] ∧ creations app q p = [(ip, day)] := by
  rw [creations, hip, Option.isSome_some, if_pos rfl]
  rcases Nat.eq_zero_or_pos (p.hist.countP q.creates) with h0 | hpos
  · exact .inl ⟨h0, by rw [h0]; rfl⟩
  obtain ⟨⟨e, r⟩, hmem, hcreates⟩ := List.countP_pos_iff.mp hpos
  obtain ⟨h₁, h₂, hhist⟩ := List.append_of_mem hmem
  obtain ⟨⟨day, hday⟩, hun⟩ := (hkept h₁ e r h₂ hhist).created r hcreates
  have hone : p.hist.countP q.creates = 1 := by
    have hfirst : h₁.countP q.creates = 0 := List.countP_eq_zero.mpr fun ev hev hP =>
      hun (List.any_eq_true.mpr ⟨ev, hev, hP⟩)
    have hlast : h₂.countP q.creates = 0 := by
      refine List.countP_eq_zero.mpr fun ev hev hP => ?_
      obtain ⟨h₃, h₄, rfl⟩ := List.append_of_mem hev
      have hlater := hkept (h₁ ++ ⟨e, r⟩ :: h₃) ev.1 ev.2 h₄ (by rw [hhist, List.append_assoc]; rfl)
      exact (hlater.created ev.2 hP).2 (List.any_eq_true.mpr ⟨⟨e, r⟩, by simp, hcreates⟩)
    rw [hhist, List.countP_append, List.countP_cons_of_pos hcreates, hfirst, hlast]
  -- the request was counted before it created anything, and so not again
  have hgrants : q.grants p.hist = [(ip, day)] := by
    have hnoted : ∃ ev ∈ h₁, q.noted ev ≠ none := by
      have hmem : (ip, day) ∈ q.grants h₁ := hday ▸ List.mem_singleton_self _
      obtain ⟨ev, hev, hgranted⟩ := List.mem_filterMap.mp hmem
      refine ⟨ev, hev, fun hnone => ?_⟩
      rw [hnone] at hgranted
      cases hgranted
    obtain ⟨ev, hev, hsome⟩ := hnoted
    have hrest : q.grants (⟨e, r⟩ :: h₂) = [] := by
      refine List.filterMap_eq_nil_iff.mpr fun ev' hev' => ?_
      obtain ⟨h₃, h₄, hsplit⟩ := List.append_of_mem hev'
      have hcounts := hkept (h₁ ++ h₃) ev'.1 ev'.2 h₄ (by rw [hhist, hsplit, List.append_assoc])
      cases hnote : q.noted ev' with
      | none => rfl
      | some note =>
        exact absurd ((hcounts.counted ev'.2 note.1 note.2 hnote).2 ev (List.mem_append_left _ hev)) hsome
    rw [hhist, grants_append, hday, hrest]
    rfl
  refine .inr ⟨hone, day, hgrants, ?_⟩
  rw [hone, hgrants]
  rfl

variable {ok : LimitedConf → Move Task Choice LimitedTick → Prop} {c : LimitedConf} {clock : DateTime}

theorem creations_cases (h : (limitedServer app).Reach ok (System.init (.start l clock)) c)
    {p : Proc Task Eff.Ans Outcome} (hp : p ∈ c.procs) (hip : q.client app p.tag = some ip) :
    (p.hist.countP q.creates = 0 ∧ creations app q p = []) ∨
      p.hist.countP q.creates = 1 ∧
        ∃ day, q.grants p.hist = [(ip, day)] ∧ creations app q p = [(ip, day)] :=
  creations_of_counts hip fun h₁ e r h₂ heq =>
    h.kept (fun t => (counts_task q t).obeys) p hp h₁ e r h₂ heq ip hip

/-- No more is created than is granted. -/
theorem count_creations_le (h : (limitedServer app).Reach ok (System.init (.start l clock)) c)
    (call : DailyCall) :
    (c.procs.flatMap (creations app q)).count call ≤ (allGrants q c.log).count call := by
  have hproc : ∀ p ∈ c.procs, (creations app q p).count call ≤ (q.grants p.hist).count call := by
    intro p hp
    cases hclient : q.client app p.tag with
    | none =>
      rw [creations, hclient]
      exact Nat.zero_le _
    | some ip =>
      obtain ⟨-, hnone⟩ | ⟨-, day, hgrants, hcreated⟩ := creations_cases h hp hclient
      · rw [hnone]
        exact Nat.zero_le _
      · rw [hcreated, hgrants]
  have hgranted : (allGrants q c.log).count call =
      (c.procs.map fun p => (q.grants p.hist).count call).sum := by
    simp only [allGrants, Quota.grants, List.count_filterMap, List.countP_map]
    exact h.countP_log fun _ ev => ((q.noted ev).bind fun (call, granted) =>
      if granted then some call else none) == some call
  rw [hgranted, List.count_flatMap]
  exact List.sum_le_sum hproc

end AnonyMail
