import AnonyMail.Verify.DomainNames
import AnonyMail.Verify.OwnerGate

/-! # Reserved local parts

A local part that is asked for, or that the catch-all would create, is compared with the reserved
ones. A generated one is not, although `random_local_part` can return a reserved name. -/

namespace AnonyMail

open Calls MemoryStore

variable {app : AppState} {c c' : ServerConf}

/-! ## Claimed domains -/

theorem isValidDomain_of_validateClaimable {cfg : Config} {raw d : String}
    (h : CustomDomains.validateClaimable cfg raw = .ok d) : CustomDomains.isValidDomain d :=
  CustomDomains.isValidDomain_iff.mpr (CustomDomains.validateClaimable_eq_ok.mp h).2.1

theorem not_mem_of_isValidDomain {d : String} (h : CustomDomains.isValidDomain d) :
    '@' ∉ d.toList := by
  intro hat
  obtain hdot | hlabel := (CustomDomains.isValidDomain_iff.mp h).chars hat
  · exact absurd hdot (by decide)
  · exact absurd hlabel (by decide)

theorem claim_names {start : DateTime} (h : (server app).Reach ok (System.init (World.start start)) c) :
    ∀ d row, c.world.store.customDomains.lookup d = some row → CustomDomains.isValidDomain d := by
  induction h with
  | refl => simp [System.init, World.start, Inner.empty]
  | tail hc _ hs ih =>
  intro d row hrow
  obtain hstore | ⟨t, hist, op, k, ids, r, -, hp, -, -, hstore⟩ := store_step hs
  · exact ih d row (hstore ▸ hrow)
  rw [hstore] at hrow
  obtain h | ⟨claim, txt, rfl, -⟩ | ⟨-, h⟩ | ⟨_, _, _, row', -, hrow', -⟩ := claim_apply op d
  · exact ih d row (h ▸ hrow)
  · obtain ⟨-, ⟨raw, hraw⟩, -⟩ := (task_lawful hc _ hp).1
    exact isValidDomain_of_validateClaimable hraw
  · cases h.symm.trans hrow
  · exact ih d row' hrow'

theorem read_claim_name {start : DateTime} {d : String} {row : CustomDomain}
    (h : (server app).Reach ok (System.init (World.start start)) c) (hp : p ∈ c.procs)
    (hev : ⟨.store (.getCustomDomain d), .ok (some row)⟩ ∈ p.hist) :
    CustomDomains.isValidDomain d := by
  obtain ⟨c₁, c₂, ids, h₁, ha, -⟩ := read_of_hist h hp hev
  simp only [StoreOp.apply, getCustomDomain, Prod.mk.injEq, Except.ok.injEq] at ha
  exact claim_names h₁ d row ha.1

/-! ## Mailboxes that are created -/

/-- The call has created the mailbox `a` on the domain `d`. -/
def Created (a d : String) (e : ServerEntry) : Prop :=
  ∃ x owner device mb, (⟨e.call, e.answer⟩ : Event Eff.Ans) =
    ⟨.store (.createMailbox a d x owner device), .ok mb⟩

/-- A request for a mailbox with a generated local part. -/
def Task.drawsLocalPart : Task → Bool
  | .http (.createAddress _ _ body) => (body.bind (·.localPart)).isNone
  | _ => false

/-- The local part and the domain of the mailbox that the call would create. -/
def StoreOp.creates : StoreOp → Option (String × String)
  | .createMailbox a d .. => some (.ofList (a.toList.take (a.toList.length - (d.toList.length + 1))), d)
  | _ => none

/-- No generated local part that is tried is a reserved one. -/
def drawsUnreserved (cfg : Config) (c : ServerConf) (m : ServerMove) : Bool :=
  match commit c m with
  | some (t, _, op) => !t.drawsLocalPart ||
    op.creates.all fun (l, _) => !cfg.isReservedLocalPart l
  | none => true

/-- No reserved local part ends in an `@` and the local part that a configured domain seems to
have. There is none if the domains have no `@`. -/
def Config.PlainDomains (cfg : Config) : Prop :=
  ∀ d ∈ cfg.domains, ∀ l d', Str.rsplitOnce d '@' = some (l, d') →
    ∀ r ∈ cfg.reservedLocalParts, ¬Str.endsWith r ("@" ++ l)

theorem creates_createMailbox (l d : String) :
    StoreOp.creates (.createMailbox (l ++ "@" ++ d) d x owner device) = some (l, d) := by
  have hlen : (l ++ "@" ++ d).toList.length - (d.toList.length + 1) = l.toList.length := by
    simp only [String.toList_append, List.length_append]
    have : "@".toList.length = 1 := rfl
    omega
  rw [StoreOp.creates, hlen]
  simp

/-- The local part of an address on a domain that has an `@`. -/
theorem rsplitOnce_append_of_rsplitOnce {l d l' d' : String}
    (h : Str.rsplitOnce d '@' = some (l', d')) :
    Str.rsplitOnce (l ++ "@" ++ d) '@' = some (l ++ "@" ++ l', d') := by
  obtain ⟨hd, hd'⟩ := Str.rsplitOnce_eq_some.mp h
  refine Str.rsplitOnce_eq_some.mpr ⟨?_, hd'⟩
  simp [hd]

theorem rsplitOnce_isSome_of_mem {d : String} (h : '@' ∈ d.toList) :
    ∃ l' d', Str.rsplitOnce d '@' = some (l', d') := by
  obtain ⟨s, t, hd, hs⟩ := List.eq_append_cons_of_mem (List.mem_reverse.mpr h)
  exact ⟨_, _, by rw [Str.rsplitOnce, hd, Str.splitOnceList_append hs]; rfl⟩

/-- If no generated local part that is tried is reserved, no mailbox is created with a reserved local
part. -/
theorem created_unreserved {start : DateTime} (hcfg : app.config.PlainDomains)
    (h : (server app).Reach (drawsUnreserved app.config · ·) (System.init (World.start start)) c) :
    ∀ e ∈ c.log, ∀ a d, Created a d e → ∀ l d', Str.rsplitOnce a '@' = some (l, d') →
      ¬app.config.isReservedLocalPart l := by
  rintro e he a d ⟨x, owner, device, mb, hev⟩ l d' hl
  obtain ⟨l₁, l₂, hlog⟩ := List.append_of_mem he
  obtain ⟨c₁, c₂, ids, hist, k, h₁, -, -, hi, hlaw, hok, hm, -⟩ := committed h hlog hev
  obtain ⟨peer, hs, body, ht, hreq⟩ | ⟨n, tls, input, -, hcaught, -⟩ := hlaw.2.cases
  · obtain ⟨l', rfl, hl'⟩ := hreq.localPart
    by_cases hat : '@' ∈ d.toList
    · -- the part before the last `@` of the address is longer than the local part
      have hd : d ∈ app.config.domains := by
        obtain hd | ⟨record, token, hmem, -⟩ := hreq.domain
        · exact hd
        · have hvalid := read_claim_name h₁ (List.mem_of_getElem? hi) hmem
          exact absurd hat (not_mem_of_isValidDomain hvalid)
      obtain ⟨m, d'', hsplit⟩ := rsplitOnce_isSome_of_mem hat
      cases (rsplitOnce_append_of_rsplitOnce hsplit).symm.trans hl
      intro hres
      refine hcfg d hd m d' hsplit _ (List.contains_iff_mem.mp hres) ?_
      rw [Str.endsWith, List.isSuffixOf_iff_suffix, String.append_assoc,
        @String.toList_append l']
      exact List.suffix_append ..
    · cases (Str.rsplitOnce_append hat).symm.trans hl
      obtain ⟨-, -, hres⟩ | ⟨hnone, -⟩ := hl'
      · exact hres
      · have hdraws : e.tag.drawsLocalPart := by
          rw [ht, Task.drawsLocalPart]
          cases body with
          | none => rfl
          | some req => simpa using hnone
        simpa [drawsUnreserved, hm, hdraws, creates_createMailbox] using hok
  · obtain ⟨l', hl', hres⟩ := hcaught.split
    cases hl'.symm.trans hl
    exact hres

/-- A request for a generated local part, for which the generator returns these indices. -/
def createRandomMoves (indices : List Nat) : List ServerMove :=
  .spawn (.http (.createAddress 0 [] none)) :: acts 0 ([.answer, .verdict true, .answer,
    .bytes (List.replicate 32 0)] ++ indices.map .index ++ [.uuids []])

/-- The mailbox was created. -/
def creates (a d : String) (e : ServerEntry) : Bool :=
  match (⟨e.call, e.answer⟩ : Event Eff.Ans) with
  | ⟨.store (.createMailbox a' d' ..), .ok _⟩ => a' == a && d' == d
  | _ => false

theorem created_of_creates (h : creates a d e) : Created a d e := by
  unfold creates at h
  split at h
  · next a' d' x owner device mb heq =>
    obtain ⟨ha, hd⟩ := Bool.and_eq_true_iff.mp h
    rw [← eq_of_beq ha, ← eq_of_beq hd]
    exact ⟨x, owner, device, mb, heq⟩
  · cases h

theorem plainDomains_default : Config.PlainDomains .default := by
  intro d hd l d' hl
  cases List.mem_singleton.mp hd
  have hnone : Str.rsplitOnce "example.com" '@' = none := by decide +kernel
  cases hnone.symm.trans hl

theorem created_unreserved_random : ∃ c e,
    (server ownerServer).Reach (drawsUnreserved ownerServer.config · ·)
      (System.init (World.start 0)) c ∧ e ∈ c.log ∧
    Created "aaaaaaaaaa@example.com" "example.com" e ∧
    ¬ownerServer.config.isReservedLocalPart "aaaaaaaaaa" := by
  have hrun : ((server ownerServer).run (drawsUnreserved ownerServer.config · ·)
      (System.init (World.start 0)) (createRandomMoves (List.replicate 10 0))).any fun c =>
        c.log.any (creates "aaaaaaaaaa@example.com" "example.com") := by
    decide +kernel
  obtain ⟨c, hc, hP⟩ := System.Reach.exists_of_run hrun
  obtain ⟨e, he, hcreates⟩ := List.any_eq_true.mp hP
  have hcreated := created_of_creates hcreates
  exact ⟨c, e, hc, he, hcreated, created_unreserved plainDomains_default hc e he _ _ hcreated _
    "example.com" (by decide +kernel)⟩

/-- The generator returns `hostmaster`, and the request is served. -/
theorem not_created_unreserved : ¬∀ (app : AppState) (start : DateTime) (c : ServerConf),
    (server app).Reach (fun _ _ => True) (System.init (World.start start)) c →
    ∀ e ∈ c.log, ∀ a d, Created a d e → ∀ l d', Str.rsplitOnce a '@' = some (l, d') →
      ¬app.config.isReservedLocalPart l := by
  intro H
  have hrun : ((server ownerServer).run (fun _ _ => True) (System.init (World.start 0))
      (createRandomMoves [7, 14, 18, 19, 12, 0, 18, 19, 4, 17])).any fun c =>
        c.log.any (creates "hostmaster@example.com" "example.com") := by
    decide +kernel
  obtain ⟨c, hc, hP⟩ := System.Reach.exists_of_run hrun
  obtain ⟨e, he, hcreates⟩ := List.any_eq_true.mp hP
  refine H ownerServer 0 c hc e he _ _ (created_of_creates hcreates) "hostmaster" "example.com"
    (by decide +kernel) (by decide +kernel)

end AnonyMail
