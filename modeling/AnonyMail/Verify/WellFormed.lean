import AnonyMail.Verify.Addressing

/-! # Well-formed mailboxes

The API checks the local part it is asked for, and the claim of a custom domain before it makes the
mailbox. The catch-all makes a mailbox of what is left of a recipient when the tag is stripped, which
may be nothing before the `@`. -/

namespace AnonyMail

open Calls MemoryStore

/-- The mailbox is fit to be created in the state `s` of the store. -/
structure WellFormed (cfg : Config) (s : Inner) (mb : Mailbox) : Prop where
  localPart : ∃ l, mb.address = l ++ "@" ++ mb.domain ∧ l ≠ ""
  domain : domainOf mb.address = some mb.domain
  served : mb.domain ∈ cfg.domains ∨ customDomainIsVerified s mb.domain
  lower : Str.toAsciiLowercase mb.address = mb.address

/-- The call has created this mailbox. -/
def CreatedMailbox (mb : Mailbox) (e : ServerEntry) : Prop :=
  ∃ a d x owner device, (⟨e.call, e.answer⟩ : Event Eff.Ans) =
    ⟨.store (.createMailbox a d x owner device), .ok mb⟩

/-! ## The conditions on a run -/

/-- No mailbox is created without a local part. -/
def namesLocalPart (c : ServerConf) (m : ServerMove) : Bool :=
  match commit c m with
  | some (_, _, .createMailbox a d ..) => a != "@" ++ d
  | _ => true

/-- The claim of the domain is deleted, or recorded as one that is not verified. -/
def dropsClaim (d : String) : Event Eff.Ans → Bool
  | ⟨.store (.deleteCustomDomain d'), .ok _⟩ => d' == d
  | ⟨.store (.recordCustomDomainCheck d' status ..), .ok _⟩ => d' == d && status != .verified
  | _ => false

/-- Whether the claim of the domain has been dropped since the process `i` read it first; `none` if
the process has not read it. -/
def droppedAfter (i : Nat) (d : String) (s : Option Bool) (e : ServerEntry) : Option Bool :=
  match s with
  | some b => some (b || dropsClaim d ⟨e.call, e.answer⟩)
  | none => if e.pid == i && (readClaim d ⟨e.call, e.answer⟩).isSome then some false else none

def dropped (log : List ServerEntry) (i : Nat) (d : String) : Option Bool :=
  log.foldl (droppedAfter i d) none

/-- A mailbox is created only while the claim of its domain has not been dropped since the request
read it. -/
def createsInTime (c : ServerConf) : ServerMove → Bool
  | .act i (.uuids ids) =>
    match commit c (.act i (.uuids ids)) with
    | some (_, _, .createMailbox _ d ..) => dropped c.log i d != some true
    | _ => true
  | _ => true

theorem dropped_concat (log : List ServerEntry) (e : ServerEntry) (i : Nat) (d : String) :
    dropped (log ++ [e]) i d = droppedAfter i d (dropped log i d) e := by
  simp [dropped]

/-! ## Claims that have been read -/

variable {app : AppState} {c c' : ServerConf} {m : ServerMove}

/-- A verified claim that a process has read is verified still, unless it has been dropped. -/
def ClaimsKept (c : ServerConf) : Prop :=
  ∀ (i : Nat) p d row, c.procs[i]? = some p → ⟨.store (.getCustomDomain d), .ok (some row)⟩ ∈ p.hist →
    row.status = .verified →
    dropped c.log i d = some true ∨ dropped c.log i d = some false ∧ customDomainIsVerified c.world.store d

theorem customDomainIsVerified_iff {s : Inner} {d : String} : customDomainIsVerified s d ↔
    ∃ row, s.customDomains.lookup d = some row ∧ row.status = .verified := by
  simp [customDomainIsVerified, Option.any_eq_true]

section
variable {w w' : World} {ch : Choice} {e : Eff} {r : e.Ans} {d : String}

/-- Only a call that drops a claim makes it unverified. -/
theorem verified_exec (hx : exec app w e ch = some (r, w')) (hdrop : dropsClaim d ⟨e, r⟩ = false)
    (hver : customDomainIsVerified w.store d) : customDomainIsVerified w'.store d := by
  cases e with
  | store op =>
    obtain ⟨-, -, rfl⟩ | ⟨ids, -, -, -, -, hap, -⟩ := exec_store_cases hx
    · exact hver
    obtain ⟨row, hrow, hst⟩ := customDomainIsVerified_iff.mp hver
    have hclaim := @claim_apply app.config.mailboxQuotas w.store w.clock ids op d
    rw [hap] at hclaim
    obtain h | ⟨_, _, -, hnone, -⟩ | ⟨rfl, -⟩ | ⟨status, _, _, row', rfl, -, h⟩ := hclaim
    · exact customDomainIsVerified_iff.mpr ⟨row, h.trans hrow, hst⟩
    · cases hnone.symm.trans hrow
    · cases (Prod.mk.inj hap).1
      simp [dropsClaim] at hdrop
    · cases (Prod.mk.inj hap).1
      simp only [dropsClaim, beq_self_eq_true, Bool.true_and, bne_eq_false_iff_eq] at hdrop
      exact customDomainIsVerified_iff.mpr ⟨_, h, hdrop⟩
  | _ =>
    rw [exec_store_eq hx (by simp)]
    exact hver

theorem verified_of_read {row : CustomDomain}
    (hx : exec app w (.store (.getCustomDomain d)) ch = some (.ok (some row), w'))
    (hst : row.status = .verified) : customDomainIsVerified w'.store d := by
  obtain ⟨-, h, -⟩ | ⟨ids, -, -, -, -, hap, -⟩ := exec_store_cases hx
  · cases h
  · obtain ⟨hrow, hw⟩ := Prod.mk.inj hap
    rw [← hw]
    exact customDomainIsVerified_iff.mpr ⟨row, Except.ok.inj hrow, hst⟩

end

theorem ClaimsKept.step (hinv : ClaimsKept c) (hs : (server app).step c m = some c') :
    ClaimsKept c' := by
  intro i p d row hi hread hst
  obtain ⟨t, -, rfl⟩ | ⟨j, ch, t, hist, e, k, r, w, -, hj, hx, rfl⟩ | ⟨x, w, -, hw, rfl⟩ :=
    System.step_cases hs
  · obtain hi | rfl := System.getElem?_spawn hi
    · exact hinv i p d row hi hread hst
    · cases hread
  · replace hx : exec app c.world e ch = some (r, w) := hx
    rw [dropped_concat]
    -- what has been read before
    have hold : ∀ {p : Proc Task Eff.Ans Outcome}, c.procs[i]? = some p →
        ⟨.store (.getCustomDomain d), .ok (some row)⟩ ∈ p.hist →
        droppedAfter i d (dropped c.log i d) ⟨j, t, c.world, e, r, w⟩ = some true ∨
        droppedAfter i d (dropped c.log i d) ⟨j, t, c.world, e, r, w⟩ = some false ∧
          customDomainIsVerified w.store d := by
      intro p hi hread
      obtain h | ⟨h, hver⟩ := hinv i p d row hi hread hst
      · exact .inl (by rw [h]; rfl)
      · rw [h]
        cases hdrop : dropsClaim d ⟨e, r⟩ with
        | true => exact .inl (congrArg some hdrop)
        | false => exact .inr ⟨congrArg some hdrop, verified_exec hx hdrop hver⟩
    obtain ⟨rfl, rfl⟩ | ⟨-, hi⟩ := System.getElem?_act hi
    · obtain hread | hread := List.mem_append.mp hread
      · exact hold hj hread
      · cases List.mem_singleton.mp hread
        have hver := verified_of_read hx hst
        cases h : dropped c.log i d with
        | none => exact .inr ⟨by simp [droppedAfter, readClaim], hver⟩
        | some b =>
          cases b with
          | true => exact .inl rfl
          | false => exact .inr ⟨rfl, hver⟩
    · exact hold hi hread
  · cases hw
    cases x <;> exact hinv i p d row hi hread hst

theorem claimsKept_of_reach {w : World} (h : (server app).Reach ok (System.init w) c) :
    ClaimsKept c := by
  refine h.invariant ?_ fun _ hinv _ hs => hinv.step hs
  intro i p d row hi
  simp [System.init] at hi

/-! ## Mailboxes that are created -/

theorem lower_append {l d : String} (hl : Smtp.LocalName l) (hd : Str.toAsciiLowercase d = d) :
    Str.toAsciiLowercase (l ++ "@" ++ d) = l ++ "@" ++ d := by
  have hl' : Str.toAsciiLowercase l = l := Str.toAsciiLowercase_eq_self.mpr fun x hx =>
    (Smtp.isNameChar_spec (hl.chars x hx)).2.2
  have hat : Str.toAsciiLowercase "@" = "@" := by decide +kernel
  rw [Str.toAsciiLowercase_append, Str.toAsciiLowercase_append, hl', hat, hd]

theorem LocalName.ne_empty {l : String} (hl : Smtp.LocalName l) : l ≠ "" := fun heq =>
  hl.ne (by rw [heq]; rfl)

section
variable {raw : String} {mb : Mailbox} {a d : String} {hs : Api.HeaderMap} {h : Hist}
  {req : Api.CreateAddressRequest} {s : Inner} {x : DateTime} {owner device : Option String}

/-- What the API creates. -/
theorem wellFormed_of_requested (hcfg : app.config.domains = Config.domainsFromEnv raw)
    (hat : app.config.DomainsOk) (hreq : Api.Requested app hs req h a d x owner device)
    (hclaim : ∀ row, ⟨.store (.getCustomDomain d), .ok (some row)⟩ ∈ h → row.status = .verified →
      CustomDomains.isValidDomain d ∧ customDomainIsVerified s d)
    (haddr : mb.address = a) (hdom : mb.domain = d) : WellFormed app.config s mb := by
  obtain ⟨l, rfl, hl⟩ := hreq.localPart
  have hname := localName_of_localPartOk hl
  have hserved : '@' ∉ d.toList ∧ Str.toAsciiLowercase d = d ∧
      (d ∈ app.config.domains ∨ customDomainIsVerified s d) := by
    obtain hmem | ⟨row, token, hread, -, -, hst⟩ := hreq.domain
    · exact ⟨hat d hmem, lower_of_mem hcfg hmem, .inl hmem⟩
    · obtain ⟨hvalid, hver⟩ := hclaim row hread hst
      exact ⟨not_mem_of_isValidDomain hvalid, (domainName_of_isValidDomain hvalid).lower, .inr hver⟩
  rw [← hdom] at hserved haddr
  refine ⟨⟨l, haddr, LocalName.ne_empty hname⟩, ?_, hserved.2.2, ?_⟩
  · rw [haddr, domainOf_append hserved.1]
  · rw [haddr, lower_append hname hserved.2.1]

/-- What the catch-all creates, if there is a local part. -/
theorem wellFormed_of_caught (hcaught : Caught app.config h a d x) (hne : a ≠ "@" ++ d)
    (haddr : mb.address = a) (hdom : mb.domain = d) : WellFormed app.config s mb := by
  subst haddr hdom
  obtain ⟨l, hl, -⟩ := hcaught.split
  obtain ⟨ha, hat⟩ := Str.rsplitOnce_eq_some.mp hl
  have ha' : mb.address = l ++ "@" ++ mb.domain := String.toList_injective (by rw [ha]; simp)
  have hd : Str.toAsciiLowercase mb.domain = mb.domain :=
    Str.toAsciiLowercase_eq_self.mpr fun y hy => Str.toAsciiLowercase_eq_self.mp hcaught.lower y
      (ha ▸ List.mem_append_right _ (List.mem_cons_of_mem _ hy))
  refine ⟨⟨l, ha', fun hempty => hne ?_⟩, ?_, .inl ?_, hcaught.lower⟩
  · rw [ha', hempty, String.empty_append]
  · rw [domainOf, hl]
    rfl
  · obtain ⟨y, hy, heq⟩ := List.any_eq_true.mp hcaught.served
    rw [hd] at heq
    exact eq_of_beq heq ▸ hy

end

theorem createMailbox_ok {s s' : Inner} {mb : Mailbox} {a d : String} {x now : DateTime}
    {owner device : Option String} (h : createMailbox s a d x owner device now = (.ok mb, s')) :
    mb.address = a ∧ mb.domain = d := by
  rw [createMailbox] at h
  split at h
  · cases (Prod.mk.inj h).1
  · cases (Prod.mk.inj h).1
    exact ⟨rfl, rfl⟩

/-- What a client sends that names this path as its recipient. -/
def sendsRcpt (path : String) : Smtp.Reader where
  chunks :=
    let bytes := Str.asBytes ("HELO a\r\nMAIL FROM:<>\r\nRCPT TO:<" ++ path ++ ">\r\n")
    if h : bytes = [] then [] else [⟨bytes, h⟩]
  tail := .eof

/-- The catch-all creates the mailbox of the path. -/
def catchMoves (path : String) : List ServerMove :=
  .spawn (.smtp 3 false (sendsRcpt path)) ::
    acts 0 [.answer, .answer, .answer, .answer, .uuids [], .answer, .uuids []]

/-- The mailbox that the call has created. -/
def createdMailbox (e : ServerEntry) : Option Mailbox :=
  match (⟨e.call, e.answer⟩ : Event Eff.Ans) with
  | ⟨.store (.createMailbox ..), .ok mb⟩ => some mb
  | _ => none

theorem createdMailbox_eq_some {e : ServerEntry} {mb : Mailbox} (h : createdMailbox e = some mb) :
    CreatedMailbox mb e := by
  unfold createdMailbox at h
  split at h
  · next heq => exact ⟨_, _, _, _, _, Option.some.inj h ▸ heq⟩
  · cases h

theorem exists_of_created {P : Mailbox → Bool}
    (h : c.log.any fun e => (createdMailbox e).any P) : ∃ e ∈ c.log, ∃ mb, CreatedMailbox mb e ∧ P mb := by
  obtain ⟨e, he, h⟩ := List.any_eq_true.mp h
  obtain ⟨mb, hmb, hP⟩ := (Option.any_eq_true ..).mp h
  exact ⟨e, he, mb, createdMailbox_eq_some hmb, hP⟩

end AnonyMail
