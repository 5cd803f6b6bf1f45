import AnonyMail.Verify.OwnerGate
import Mathlib.Data.List.Induction

/-! # Who holds a mailbox

`holder` follows the log: the request whose create or rotation was the last one of the mailbox, or
the catch-all. The hash that the store keeps is always that of the token in the response of that
request (`Ledger`), so that `authorize_owner` accepts this token and no other. -/

namespace AnonyMail

open Calls Prog MemoryStore Encoding

variable {app : AppState} {c c' : ServerConf} {m : ServerMove}

/-! ## Tokens that are handed out -/

/-- The hash of the owner token that the call has put into a mailbox. -/
def handsOut : Event Eff.Ans → Option String
  | ⟨.store (.createMailbox _ _ _ owner _), .ok _⟩ => owner
  | ⟨.store (.rotateOwnerToken _ hash), .ok true⟩ => some hash
  | _ => none

def NoneOut (h : Hist) : Prop := ∀ ev ∈ h, handsOut ev = none

/-- If a token was handed out, the result carries it; and the tokens of results are fresh ones. -/
structure Issued (D : Deps) (token : α → String) (h : Hist) (r : Except Api.ApiError α) : Prop where
  returned : ∀ ev ∈ h, ∀ hash, handsOut ev = some hash →
    ∃ a, r = .ok a ∧ hash = Api.hashToken D (token a)
  drawn : ∀ a, r = .ok a →
    ∃ bs, ⟨.randomBytes 32, bs⟩ ∈ h ∧ token a = Api.tokenPrefix ++ base64Url bs

theorem handsOut_of_passive {e : Eff} {r : e.Ans} (he : e.Passive) : handsOut ⟨e, r⟩ = none := by
  cases e with
  | store op => cases op <;> first | rfl | exact he.elim | cases he
  | _ => rfl

theorem NoneOut.append {h l : Hist} (hh : NoneOut h) (hl : NoneOut l) : NoneOut (h ++ l) :=
  fun ev hev => (List.mem_append.mp hev).elim (hh ev) (hl ev)

theorem noneOut_of_passive {l : Hist} (hl : ∀ ev ∈ l, ev.1.Passive) : NoneOut l :=
  fun ev hev => handsOut_of_passive (hl ev hev)

theorem NoneOut.error {h : Hist} {token : α → String} (hh : NoneOut h) (e : Api.ApiError) :
    Issued app.deps token h (.error e) :=
  ⟨fun ev hev _ hout => (Option.some_ne_none _ (hout.symm.trans (hh ev hev))).elim, nofun⟩

theorem issued_of_last {h : Hist} {token : α → String} {ev : Event Eff.Ans} {bs : List UInt8} {a : α}
    (hh : NoneOut h) (hbs : ⟨.randomBytes 32, bs⟩ ∈ h) (ha : token a = Api.tokenPrefix ++ base64Url bs)
    (hev : ∀ hash, handsOut ev = some hash → hash = Api.hashToken app.deps (token a)) :
    Issued app.deps token (h ++ [ev]) (.ok a) := by
  refine ⟨fun ev' hev' hash hout => ⟨a, rfl, ?_⟩, ?_⟩
  · rcases List.mem_append.mp hev' with hev' | hev'
    · exact (Option.some_ne_none _ (hout.symm.trans (hh ev' hev'))).elim
    · exact hev hash (List.mem_singleton.mp hev' ▸ hout)
  · rintro _ ⟨⟩
    exact ⟨bs, List.mem_append_left _ hbs, ha⟩

namespace Api

theorem asks_passive {x : Handler α} (hx : Only Eff.Asks x.run) : Only Eff.Passive x.run :=
  hx.imp fun _ he => he.passive

abbrev TokenEnds (D : Deps) (token : α → String) (h : Hist) (x : Handler α) : Prop :=
  Ends (fun h _ => NoneOut h) (Issued D token) h x

/-- Nothing is handed out before the handler creates or rotates. -/
theorem tokenEnds_bind {token : β → String} {x : Handler α} {f : α → Handler β} {h : Hist}
    (hx : Only Eff.Passive x.run) (hh : NoneOut h)
    (hf : ∀ h' a, NoneOut h' → h <+: h' → TokenEnds app.deps token h' (f a)) :
    TokenEnds app.deps token h (x >>= f) := by
  refine ends_bind_only hx (fun l _ hl _ => hh.append (noneOut_of_passive hl)) (fun l e hl => ?_)
    fun l a hl => hf _ a (hh.append (noneOut_of_passive hl)) (List.prefix_append ..)
  exact (hh.append (noneOut_of_passive hl)).error e

theorem tokenEnds_perform {token : β → String} {e : Eff} {f : e.Ans → Handler β} {h : Hist}
    (he : e.Passive) (hh : NoneOut h) (hf : ∀ h' r, NoneOut h' → ⟨e, r⟩ ∈ h' →
      TokenEnds app.deps token h' (f r)) : TokenEnds app.deps token h (perform e >>= f) := by
  refine ends_perform_bind hh fun r => hf _ r (hh.append ?_) (by simp)
  exact noneOut_of_passive fun ev hev => List.mem_singleton.mp hev ▸ he

theorem tokenEnds_generate {token : β → String} {f : String × String → Handler β} {h : Hist}
    (hh : NoneOut h) (hf : ∀ h' bs, NoneOut h' → ⟨.randomBytes 32, bs⟩ ∈ h' →
      TokenEnds app.deps token h' (f (tokenPrefix ++ base64Url bs,
        hashToken app.deps (tokenPrefix ++ base64Url bs)))) :
    TokenEnds app.deps token h (generateOwnerToken app.deps >>= f) :=
  ⟨(tokenEnds_perform (e := .randomBytes 32) trivial hh hf).obeys⟩

/-- A mailbox that was not created. -/
theorem noneOut_error {op : StoreOp} {e : StoreError} : NoneOut [⟨.store op, .error e⟩] := by
  intro ev hev
  rw [List.mem_singleton.mp hev]
  unfold handsOut
  split
  · next heq => cases heq
  · next heq => cases heq
  · rfl

theorem tokenEnds_createCustom {h : Hist} (hh : NoneOut h) :
    TokenEnds app.deps (·.ownerToken) h (Addresses.createCustom app l d x device) := by
  refine tokenEnds_generate hh fun h' bs hh' hbs => ?_
  refine ends_perform_bind hh' fun r => ?_
  split
  · refine ends_pure (issued_of_last hh' hbs rfl fun hash hout => ?_)
    cases hout
    rfl
  · split
    · exact ends_throw ((hh'.append noneOut_error).error _)
    · exact ends_throw ((hh'.append noneOut_error).error _)

theorem tokenEnds_createRandom {h : Hist} (hh : NoneOut h) (n : Nat) :
    TokenEnds app.deps (·.ownerToken) h (Addresses.createRandom app d x device n) := by
  induction n generalizing h with
  | zero => exact ends_throw (hh.error _)
  | succ n ih =>
    refine tokenEnds_generate hh fun h₁ bs hh₁ hbs => ?_
    refine tokenEnds_bind (asks_passive (only_of_yields fun _ =>
      randomLocalPart_yields fun _ _ he => he.1)) hh₁ fun h₂ l hh₂ hle => ?_
    refine ends_perform_bind hh₂ fun r => ?_
    split
    · refine ends_pure (issued_of_last hh₂ (hle.subset hbs) rfl fun hash hout => ?_)
      cases hout
      rfl
    · split
      · exact ih (hh₂.append noneOut_error)
      · exact ends_throw ((hh₂.append noneOut_error).error _)

theorem tokenEnds_create (peer : IpAddr) (hs : HeaderMap) (req : CreateAddressRequest) :
    TokenEnds app.deps (·.ownerToken) [] (Addresses.create app peer hs req) := by
  have hquery : ∀ (_ : Hist) e, Eff.Queries e → Eff.Asks e := fun _ _ he => he.1
  have hnil : NoneOut [] := fun _ hev => absurd hev List.not_mem_nil
  refine tokenEnds_bind (passive_attestationGate hs) hnil fun h₁ client hh₁ _ => ?_
  refine tokenEnds_bind (asks_passive (only_of_yields fun _ => chooseDomain_yields hquery _)) hh₁
    fun h₂ d hh₂ _ => ?_
  refine tokenEnds_bind (only_of_yields fun _ => chooseLocalPart_yields _) hh₂ fun h₃ l hh₃ _ => ?_
  refine tokenEnds_bind (asks_passive (only_of_yields fun _ => checkMailboxCap_yields hquery)) hh₃
    fun h₄ _ hh₄ _ => ?_
  refine tokenEnds_perform trivial hh₄ fun h₅ now hh₅ _ => ?_
  refine tokenEnds_perform trivial hh₅ fun h₆ b hh₆ _ => ?_
  split
  · exact ends_throw (hh₆.error _)
  · refine tokenEnds_bind passive_expiryFromNow hh₆ fun h₇ x hh₇ _ => ?_
    split
    · exact tokenEnds_createCustom hh₇
    · exact tokenEnds_createRandom hh₇ _

theorem passive_authorizeOwner (a : String) (hs : HeaderMap) :
    Only Eff.Passive (authorizeOwner app a hs).run := by
  intro h
  refine safe_store_bind rfl fun mb => safe_okOr_bind fun _ _ => safe_okOr_bind fun token _ => ?_
  split
  · exact safe_throw
  · split
    · exact safe_pure
    · exact safe_throw

theorem tokenEnds_rotate (a : String) (hs : HeaderMap) :
    TokenEnds app.deps id [] (Addresses.rotate app a hs) := by
  have hnil : NoneOut [] := fun _ hev => absurd hev List.not_mem_nil
  refine tokenEnds_bind (passive_attestationGate hs) hnil fun h₁ client hh₁ _ => ?_
  refine tokenEnds_bind (passive_authorizeOwner _ hs) hh₁ fun h₂ mb hh₂ _ => ?_
  refine tokenEnds_generate hh₂ fun h₃ bs hh₃ hbs => ?_
  refine ends_store_bind hh₃ (fun e => (hh₃.append noneOut_error).error _) fun b => ?_
  cases b with
  | true =>
    refine ends_pure (issued_of_last hh₃ hbs rfl fun hash hout => ?_)
    cases hout
    rfl
  | false =>
    refine ends_throw ((hh₃.append fun ev hev => ?_).error _)
    rw [List.mem_singleton.mp hev]
    rfl

end Api

/-! ## All tasks -/

/-- The owner token in a response. -/
def Outcome.ownerToken : Outcome → Option String
  | .response (.ok (.created r)) => some r.ownerToken
  | .response (.ok (.ownerToken token)) => some token
  | _ => none

/-- Requests that return an owner token. -/
def Task.issues : Task → Bool
  | .http (.createAddress ..) | .http (.rotateAddress ..) => true
  | _ => false

structure TaskIssued (app : AppState) (t : Task) (h : Hist) (o : Outcome) : Prop where
  returned : ∀ ev ∈ h, ∀ hash, handsOut ev = some hash →
    t.issues ∧ ∃ token, o.ownerToken = some token ∧ hash = Api.hashToken app.deps token
  drawn : t.issues → ∀ token, o.ownerToken = some token →
    ∃ bs, ⟨.randomBytes 32, bs⟩ ∈ h ∧ token = Api.tokenPrefix ++ base64Url bs

theorem Protocol.handsOut {e : Eff} {r : e.Ans} {t : Task} {h : Hist} (he : Protocol app t h e)
    (ht : ¬t.issues) : handsOut ⟨e, r⟩ = none := by
  unfold AnonyMail.handsOut
  split
  · next heq =>
    cases heq
    obtain ⟨_, _, _, rfl, -⟩ | ⟨_, _, _, rfl, -, rfl, -⟩ := he.2.cases
    · exact absurd rfl ht
    · rfl
  · next heq =>
    cases heq
    obtain ⟨_, _, rfl⟩ := he.2
    exact absurd rfl ht
  · rfl

theorem noneOut_obeys {Φ : Hist → Eff → Prop} {p : Run α} {h : Hist}
    (hp : Obeys Φ (fun _ _ => True) h p) (hΦ : ∀ h e r, Φ h e → handsOut ⟨e, r⟩ = none)
    (hh : NoneOut h) : Obeys (fun h _ => NoneOut h) (fun h _ => NoneOut h) h p := by
  induction p generalizing h with
  | ret a => exact hh
  | call e k ih =>
    refine ⟨hh, fun r => ih r (hp.2 r) (hh.append fun ev hev => ?_)⟩
    rw [List.mem_singleton.mp hev]
    exact hΦ h e r hp.1

theorem taskIssued_of_issued {α : Type} {token : α → String} {g : α → Api.Response} {t : Task}
    {r : Except Api.ApiError α} (hg : ∀ a, Outcome.ownerToken (.response (.ok (g a))) = some (token a))
    (ht : t.issues) (H : Issued app.deps token h r) : TaskIssued app t h (.response (r.map g)) := by
  refine ⟨fun ev hev hash hout => ⟨ht, ?_⟩, fun _ tok htok => ?_⟩
  · obtain ⟨a, rfl, hhash⟩ := H.returned ev hev hash hout
    exact ⟨token a, hg a, hhash⟩
  · cases r with
    | ok a =>
      cases (hg a).symm.trans htok
      exact H.drawn a rfl
    | error e => cases htok

/-- A request hands out one token, as the last thing that it does, and returns it. -/
theorem task_issued (app : AppState) (t : Task) :
    Obeys (fun h _ => NoneOut h) (TaskIssued app t) [] (t.prog app) := by
  by_cases ht : t.issues
  · unfold Task.issues at ht
    split at ht
    · refine obeys_bind.mpr ?_
      refine (Api.Ends.map ((Api.tokenEnds_create ..).mono fun h r H => ?_)).obeys
      exact taskIssued_of_issued (fun _ => rfl) rfl H
    · refine obeys_bind.mpr ?_
      refine (Api.Ends.map ((Api.tokenEnds_rotate ..).mono fun h r H => ?_)).obeys
      exact taskIssued_of_issued (fun _ => rfl) rfl H
    · cases ht
  · refine (noneOut_obeys (task_safe app t).obeys (fun h e r he => he.handsOut ht) ?_).mono ?_
    · exact fun _ hev => absurd hev List.not_mem_nil
    · refine fun h o hh => ⟨fun ev hev hash hout => ?_, fun hissues => absurd hissues ht⟩
      exact (Option.some_ne_none _ (hout.symm.trans (hh ev hev))).elim

/-! ## The ledger -/

inductive Holder
  | catchAll
  | request (pid : Nat)
  deriving DecidableEq

def Task.holder (pid : Nat) : Task → Holder
  | .http _ => .request pid
  | _ => .catchAll

/-- What a call means for the holder of the mailbox `a`. -/
def holderAfter (a : String) (cur : Option Holder) (e : ServerEntry) : Option Holder :=
  match (⟨e.call, e.answer⟩ : Event Eff.Ans) with
  | ⟨.store (.createMailbox a' ..), .ok _⟩ => if a' = a then some (e.tag.holder e.pid) else cur
  | ⟨.store (.rotateOwnerToken a' _), .ok true⟩ => if a' = a then some (.request e.pid) else cur
  | ⟨.store (.deleteMailbox a'), .ok true⟩ => if a' = a then none else cur
  | ⟨.store (.purgeExpired _), .ok _⟩ => if a ∈ e.after.store.mailboxes then cur else none
  | _ => cur

/-- Who has created the mailbox `a`, or has last rotated its token. -/
def holder (log : List ServerEntry) (a : String) : Option Holder := log.foldl (holderAfter a) none

/-- The owner token that a create or a rotation has returned. -/
def returned (c : ServerConf) (pid : Nat) : Option String :=
  (c.procs[pid]?).bind fun p =>
    match p.rest with
    | .ret o => if p.tag.issues then o.ownerToken else none
    | .call .. => none

/-- The mailbox of a holder keeps the hash of its token. -/
inductive Held (D : Deps) (tokenOf : Nat → Option String) : Option Holder → Option Mailbox → Prop
  | absent : Held D tokenOf none none
  | catchAll {mb : Mailbox} : mb.ownerTokenHash = none → Held D tokenOf (some .catchAll) (some mb)
  | request {pid : Nat} {token : String} {mb : Mailbox} : tokenOf pid = some token →
    mb.ownerTokenHash = some (Api.hashToken D token) → Held D tokenOf (some (.request pid)) (some mb)

section
variable {D : Deps} {tokenOf tokenOf' : Nat → Option String} {cur : Option Holder}

theorem Held.mono {row : Option Mailbox} (H : Held D tokenOf cur row)
    (htok : ∀ pid token, tokenOf pid = some token → tokenOf' pid = some token) :
    Held D tokenOf' cur row := by
  cases H with
  | absent => exact .absent
  | catchAll h => exact .catchAll h
  | request h hhash => exact .request (htok _ _ h) hhash

/-- The hash is all that counts. -/
theorem Held.congr {mb mb' : Mailbox} (H : Held D tokenOf cur (some mb))
    (h : mb'.ownerTokenHash = mb.ownerTokenHash) : Held D tokenOf cur (some mb') := by
  cases H with
  | catchAll h' => exact .catchAll (h.trans h')
  | request htok hhash => exact .request htok (h.trans hhash)

section
variable {pid : Nat} {t : Task} {w w' : World} {a b : String}

theorem holderAfter_error {op : StoreOp} {e : StoreError} :
    holderAfter a cur ⟨pid, t, w, .store op, .error e, w'⟩ = cur := by
  cases op <;> rfl

theorem holderAfter_rotate {h : String} {ok : Bool} :
    holderAfter a cur ⟨pid, t, w, .store (.rotateOwnerToken b h), .ok ok, w'⟩ =
      if ok ∧ b = a then some (.request pid) else cur := by
  cases ok with
  | true => simp only [true_and]; rfl
  | false => simp only [Bool.false_eq_true, false_and, if_false]; rfl

theorem holderAfter_delete {ok : Bool} :
    holderAfter a cur ⟨pid, t, w, .store (.deleteMailbox b), .ok ok, w'⟩ =
      if ok ∧ b = a then none else cur := by
  cases ok with
  | true => simp only [true_and]; rfl
  | false => simp only [Bool.false_eq_true, false_and, if_false]; rfl

theorem Held.create {mb : Mailbox} (hmb : mb.ownerTokenHash = o)
    (hcreate : t.holder pid = if o.isSome then .request pid else .catchAll)
    (hout : ∀ h, o = some h → ∃ token, tokenOf pid = some token ∧ h = Api.hashToken D token) :
    Held D tokenOf (some (t.holder pid)) (some mb) := by
  rw [hcreate]
  cases o with
  | none => exact .catchAll hmb
  | some h =>
    obtain ⟨token, htok, rfl⟩ := hout h rfl
    exact .request htok hmb

/-- A call keeps the ledger in step with the store, if a token that it hands out is the one that the
request returns. -/
theorem Held.apply {op : StoreOp} {r : Except StoreError op.Out}
    (H : Held D tokenOf cur (w.store.mailboxes.lookup a))
    (ha : op.apply q w.store now ids = (r, w'.store))
    (hcreate : ∀ b d x o device, op = .createMailbox b d x o device →
      t.holder pid = if o.isSome then .request pid else .catchAll)
    (hout : ∀ h, handsOut ⟨.store op, r⟩ = some h →
      ∃ token, tokenOf pid = some token ∧ h = Api.hashToken D token) :
    Held D tokenOf (holderAfter a cur ⟨pid, t, w, .store op, r, w'⟩)
      (w'.store.mailboxes.lookup a) := by
  have hrow := @mailbox_apply q w.store now ids op a
  rw [ha] at hrow
  cases op with
  | createMailbox b d x o device =>
    simp only [StoreOp.apply, createMailbox] at ha
    split at ha <;> obtain ⟨rfl, hw⟩ := Prod.mk.inj ha <;> rw [← hw]
    · rwa [holderAfter_error]
    · show Held D tokenOf (if b = a then _ else _) _
      split
      · next hab =>
        subst hab
        rw [AList.lookup_insert]
        exact .create rfl (hcreate b d x o device rfl) hout
      · next hab => rwa [AList.lookup_insert_ne (Ne.symm hab)]
  | rotateOwnerToken b h =>
    simp only [StoreOp.apply, rotateOwnerToken] at ha
    split at ha <;> obtain ⟨rfl, hw⟩ := Prod.mk.inj ha <;> rw [← hw, holderAfter_rotate]
    · next mb hmb =>
      split
      · next hab =>
        obtain ⟨token, htok, rfl⟩ := hout h rfl
        rw [hab.2, AList.lookup_insert]
        exact .request htok rfl
      · next hab =>
        rwa [AList.lookup_insert_ne fun heq => hab ⟨rfl, heq.symm⟩]
    · rwa [if_neg (by simp)]
  | deleteMailbox b =>
    obtain ⟨rfl, hw⟩ := Prod.mk.inj ha
    rw [← hw, holderAfter_delete]
    by_cases hab : a = b
    · subst hab
      simp only [AList.lookup_erase, and_true]
      split
      · exact .absent
      · next hrow => rwa [Option.not_isSome_iff_eq_none.mp hrow] at H
    · rw [if_neg fun h => hab h.2.symm]
      simp only [AList.lookup_erase_ne hab]
      exact H
  | purgeExpired u =>
    obtain ⟨rfl, hw⟩ := Prod.mk.inj ha
    show Held D tokenOf (if a ∈ w'.store.mailboxes then _ else _) _
    split
    · next hmem =>
      obtain hsame | ⟨-, _, _, _, _, ⟨⟩, -⟩ | ⟨_, _, ⟨⟩, -⟩ | ⟨_, _, ⟨⟩, -⟩ | ⟨⟨⟩, -⟩ |
        ⟨_, _, -, -, -, -, hnone⟩ := hrow
      · rwa [← hsame] at H
      · exact absurd hmem (AList.lookup_eq_none.mp hnone)
    · next hmem =>
      rw [AList.lookup_eq_none.mpr hmem]
      exact .absent
  | extendMailbox b x =>
    simp only [StoreOp.apply, extendMailbox] at ha
    split at ha <;> obtain ⟨rfl, hw⟩ := Prod.mk.inj ha <;> rw [← hw]
    · next mb hmb =>
      show Held D tokenOf cur _
      by_cases hab : a = b
      · subst hab
        rw [AList.lookup_insert]
        rw [hmb] at H
        exact H.congr rfl
      · rwa [AList.lookup_insert_ne hab]
    · exact H
  | _ =>
    obtain hsame | ⟨-, _, _, _, _, ⟨⟩, -⟩ | ⟨_, _, ⟨⟩, -⟩ | ⟨_, _, ⟨⟩, -⟩ | ⟨⟨⟩, -⟩ |
      ⟨_, _, ⟨⟩, -⟩ := hrow
    rw [hsame]
    cases r <;> exact H

end

end

theorem holder_append (log : List ServerEntry) (e : ServerEntry) (a : String) :
    holder (log ++ [e]) a = holderAfter a (holder log a) e := by
  simp [holder]

theorem returned_eq_some {c : ServerConf} {pid : Nat} {token : String} :
    returned c pid = some token ↔ ∃ p o, c.procs[pid]? = some p ∧ p.rest = .ret o ∧ p.tag.issues ∧
      o.ownerToken = some token := by
  unfold returned
  rw [Option.bind_eq_some_iff]
  constructor
  · rintro ⟨p, hp, hret⟩
    split at hret
    · next o ho =>
      obtain ⟨hissues, htok⟩ := Option.ite_none_right_eq_some.mp hret
      exact ⟨p, o, hp, ho, hissues, htok⟩
    · cases hret
  · rintro ⟨p, o, hp, ho, hissues, htok⟩
    exact ⟨p, hp, by simp [ho, hissues, htok]⟩

/-- A response stays as it is. -/
theorem returned_step {pid : Nat} {token : String} (hs : (server app).step c m = some c')
    (h : returned c pid = some token) : returned c' pid = some token := by
  obtain ⟨p, o, hp, ho, hrest⟩ := returned_eq_some.mp h
  refine returned_eq_some.mpr ⟨p, o, ?_, ho, hrest⟩
  obtain ⟨t, -, rfl⟩ | ⟨i, ch, t, hist, e, k, r, w, -, hi, -, rfl⟩ | ⟨x, w, -, -, rfl⟩ :=
    System.step_cases hs
  · rwa [List.getElem?_append_left (List.getElem?_eq_some_iff.mp hp).1]
  · by_cases hip : i = pid
    · subst hip
      cases hi.symm.trans hp
      cases ho
    · rwa [List.getElem?_set_ne hip]
  · exact hp

/-- The request that has just handed out a token has returned it. -/
theorem returned_of_handsOut {start : World} {i : Nat} {p : Proc Task Eff.Ans Outcome}
    {ev : Event Eff.Ans} {hash : String} (h : (server app).Reach ok (System.init start) c)
    (hp : c.procs[i]? = some p) (hev : ev ∈ p.hist) (hout : handsOut ev = some hash) :
    ∃ token, returned c i = some token ∧ hash = Api.hashToken app.deps token := by
  have hobeys := h.obeys (task_issued app) p (List.mem_of_getElem? hp)
  obtain ⟨t, hist, rest⟩ := p
  cases rest with
  | call e k => exact (Option.some_ne_none _ (hout.symm.trans (hobeys.1 ev hev))).elim
  | ret o =>
    obtain ⟨hissues, token, htok, hhash⟩ := hobeys.returned ev hev hash hout
    exact ⟨token, returned_eq_some.mpr ⟨_, o, hp, rfl, hissues, htok⟩, hhash⟩

def Ledger (app : AppState) (c : ServerConf) : Prop :=
  ∀ a, Held app.deps (returned c) (holder c.log a) (c.world.store.mailboxes.lookup a)

theorem holder_of_creates {pid : Nat} {t : Task} (H : t.Creates app h a d x o device) :
    t.holder pid = if o.isSome then .request pid else .catchAll := by
  obtain ⟨_, _, _, rfl, hreq⟩ | ⟨_, _, _, rfl, -, rfl, -⟩ := H.cases
  · obtain ⟨_, -, rfl⟩ := hreq.token
    rfl
  · rfl

theorem Ledger.step {start : World} (hinv : Ledger app c)
    (hc : (server app).Reach ok (System.init start) c) (hok : ok c m)
    (hs : (server app).step c m = some c') : Ledger app c' := by
  intro a
  have hold := (hinv a).mono fun pid token => returned_step hs
  have hc' := hc.tail hok hs
  obtain ⟨t, -, rfl⟩ | ⟨i, ch, t, hist, e, k, r, w, -, hi, hx, rfl⟩ | ⟨x, w, -, hw, rfl⟩ :=
    System.step_cases hs
  · exact hold
  · rw [holder_append]
    have hlt := (List.getElem?_eq_some_iff.mp hi).1
    replace hx : exec app c.world e ch = some (r, w) := hx
    cases e with
    | store op =>
      obtain ⟨-, rfl, rfl⟩ | ⟨ids, -, -, -, -, ha, -⟩ := exec_store_cases hx
      · rwa [holderAfter_error]
      · refine hold.apply ha ?_ fun hash hout => ?_
        · rintro b d x o device rfl
          exact holder_of_creates (task_lawful hc _ (List.mem_of_getElem? hi)).1.2
        · exact returned_of_handsOut hc' (List.getElem?_set_self hlt) (by simp) hout
    | _ =>
      rw [exec_store_eq hx (by simp)]
      exact hold
  · cases hw
    cases x <;> exact hold

theorem ledger_of_reach {start : DateTime}
    (h : (server app).Reach ok (System.init (World.start start)) c) : Ledger app c := by
  refine h.invariant (fun a => ?_) fun hc hinv hok hs => hinv.step hc hok hs
  rw [show (System.init (World.start start)).world.store.mailboxes.lookup a = none from rfl]
  exact .absent

/-! ## Authorization -/

/-- `authorize_owner` accepts the request in the world `w`. -/
def Authorizes (app : AppState) (w : World) (a : String) (hs : Api.HeaderMap) : Prop :=
  ∃ tr w' mb, Prog.Exec (exec app) w (Api.authorizeOwner app a hs).run tr w' (.ok mb)

theorem authorizes_iff {w : World} : Authorizes app w a hs ↔ ∃ mb token,
    w.store.mailboxes.lookup a = some mb ∧ Api.bearerToken hs = some token ∧
    mb.ownerTokenHash = some (Api.hashToken app.deps token) := by
  constructor
  · rintro ⟨tr, w', mb, hrun⟩
    have hspec : Obeys (fun _ _ => True) _ [] (Api.authorizeOwner app a hs).run :=
      Api.authorizeOwner_obeys trivial
    obtain ⟨rfl, -, token, want, htok, hwant, hmatch⟩ := hspec.result hrun.runs mb rfl
    cases hrun with
    | call hx _ =>
      obtain ⟨-, ⟨⟩, -⟩ | ⟨ids, -, -, -, -, ha, -⟩ := exec_store_cases hx
      refine ⟨mb, token, Except.ok.inj (Prod.mk.inj ha).1, htok, ?_⟩
      rw [hwant, eq_of_tokenMatchesHash hmatch]
  · rintro ⟨mb, token, hrow, htok, hhash⟩
    have hx : exec app w (.store (.getMailbox a)) (.uuids []) =
        some (.ok (some mb), { w with uuids := [] ++ w.uuids }) := by
      simp [exec, StoreOp.uuids, StoreOp.apply, getMailbox, hrow]
    exact ⟨_, _, mb, (runs_authorizeOwner htok hhash (tokenMatchesHash_iff.mpr rfl)).exec_one hx⟩

/-- The handler of an owner-gated request: it refuses the request as such, or checks the client token
and then the owner. -/
def GatedBy (app : AppState) (req : Api.Request) (a : String) (hs : Api.HeaderMap) : Prop :=
  (∃ e, Api.handle app req = throw e) ∨ ∃ f : Mailbox → Api.Handler Api.Response,
    Api.handle app req = do
      let _ ← Api.attestationGate app hs
      let mb ← Api.authorizeOwner app a hs
      f mb

theorem gatedBy_map {g : α → Api.Response} {f : Mailbox → Api.Handler α}
    (h : Api.handle app req = g <$> (do
      let _ ← Api.attestationGate app hs
      let mb ← Api.authorizeOwner app a hs
      f mb)) : GatedBy app req a hs :=
  .inr ⟨fun mb => g <$> f mb, h.trans (by simp only [map_bind])⟩

theorem gatedBy_bind {g : α → Api.Handler Api.Response} {f : Mailbox → Api.Handler α}
    (h : Api.handle app req = (do
      let _ ← Api.attestationGate app hs
      let mb ← Api.authorizeOwner app a hs
      f mb) >>= g) : GatedBy app req a hs :=
  .inr ⟨fun mb => f mb >>= g, h.trans (by simp only [bind_assoc])⟩

theorem gatedBy_subscribe {body : Option Api.SubscribeRequest}
    (h : Api.handle app req = .subscribed <$> Api.Push.subscribe app b hs body) :
    GatedBy app req (Str.toAsciiLowercase b) hs := by
  unfold Api.Push.subscribe at h
  repeat' split at h
  all_goals first | exact .inl ⟨_, h⟩ | exact gatedBy_map h

theorem gatedBy_unsubscribe {body : Option Api.UnsubscribeRequest}
    (h : Api.handle app req = do Api.Push.unsubscribe app b hs body; return .noContent) :
    GatedBy app req (Str.toAsciiLowercase b) hs := by
  unfold Api.Push.unsubscribe at h
  split at h
  · exact .inl ⟨_, h⟩
  · exact gatedBy_bind h

theorem gatedBy_of_ownerGated {req : Api.Request}
    (ht : (Task.http req).ownerGated = some (a, hs)) : GatedBy app req a hs := by
  cases req with
  | extendAddress | rotateAddress | clearMessages =>
    cases ht
    exact gatedBy_map rfl
  | deleteAddress | deleteMessage =>
    cases ht
    exact gatedBy_bind rfl
  | subscribe b hs' body =>
    cases ht
    exact gatedBy_subscribe rfl
  | unsubscribe b hs' body =>
    cases ht
    exact gatedBy_unsubscribe rfl
  | _ => cases ht

/-! ## One token, one mailbox -/

/-- The mailbox into which the call has put an owner token. -/
def handsTo : Event Eff.Ans → Option String
  | ⟨.store (.createMailbox a ..), .ok _⟩ => some a
  | ⟨.store (.rotateOwnerToken a _), .ok true⟩ => some a
  | _ => none

/-- A request hands out one token at most. -/
theorem handsOut_unique {start : World} {p : Proc Task Eff.Ans Outcome} {ev ev' : Event Eff.Ans}
    (h : (server app).Reach ok (System.init start) c) (hp : p ∈ c.procs) (hev : ev ∈ p.hist)
    (hev' : ev' ∈ p.hist) (hout : handsOut ev ≠ none) (hout' : handsOut ev' ≠ none) : ev = ev' := by
  have hkept := h.kept (fun t => (task_issued app t).mono fun _ _ _ => trivial) p hp
  obtain ⟨h₁, h₂, hhist⟩ := List.append_of_mem hev'
  rw [hhist] at hev
  rcases List.mem_append.mp hev with hev | hev
  · exact absurd (hkept _ _ _ _ hhist ev hev) hout
  rcases List.mem_cons.mp hev with rfl | hev
  · rfl
  obtain ⟨h₃, h₄, rfl⟩ := List.append_of_mem hev
  refine absurd (hkept (h₁ ++ ev' :: h₃) ev.1 ev.2 h₄ ?_ ev' (by simp)) hout'
  simp [hhist]

/-- The call that has made a request the holder of the mailbox. -/
theorem holder_mem {log : List ServerEntry} {pid : Nat} (h : holder log a = some (.request pid)) :
    ∃ e ∈ log, e.pid = pid ∧
      ((∃ d x o device mb, (⟨e.call, e.answer⟩ : Event Eff.Ans) =
        ⟨.store (.createMailbox a d x o device), .ok mb⟩ ∧ e.tag.holder pid = .request pid) ∨
      ∃ hash, (⟨e.call, e.answer⟩ : Event Eff.Ans) =
        ⟨.store (.rotateOwnerToken a hash), .ok true⟩) := by
  induction log using List.reverseRecOn with
  | nil => cases h
  | append_singleton log e ih =>
    rw [holder_append] at h
    by_cases hold : holder log a = some (.request pid)
    · obtain ⟨e', he', hrest⟩ := ih hold
      exact ⟨e', List.mem_append_left _ he', hrest⟩
    refine ⟨e, by simp, ?_⟩
    unfold holderAfter at h
    split at h
    · next a' d x o device mb heq =>
      split at h
      · next ha =>
        have hholder := Option.some.inj h
        have hpid : e.pid = pid := by
          unfold Task.holder at hholder
          split at hholder
          · cases hholder; rfl
          · cases hholder
        subst hpid ha
        exact ⟨rfl, .inl ⟨d, x, o, device, mb, heq, hholder⟩⟩
      · exact absurd h hold
    · next a' hash heq =>
      split at h
      · next ha =>
        cases h
        subst ha
        exact ⟨rfl, .inr ⟨hash, heq⟩⟩
      · exact absurd h hold
    · split at h
      · cases h
      · exact absurd h hold
    · split at h
      · exact absurd h hold
      · cases h
    · exact absurd h hold

/-- The holder of a mailbox has put its token into it. -/
theorem handsTo_of_holder {start : DateTime} {pid : Nat}
    (h : (server app).Reach ok (System.init (World.start start)) c)
    (hholder : holder c.log a = some (.request pid)) :
    ∃ p ev, c.procs[pid]? = some p ∧ ev ∈ p.hist ∧ handsOut ev ≠ none ∧ handsTo ev = some a := by
  obtain ⟨e, he, rfl, hcase⟩ := holder_mem hholder
  obtain ⟨p, hp, -, hmem⟩ := h.mem_hist_of_log e he
  refine ⟨p, _, hp, hmem, ?_⟩
  obtain ⟨d, x, o, device, mb, hev, hreq⟩ | ⟨hash, hev⟩ := hcase
  · obtain ⟨l₁, l₂, hlog⟩ := List.append_of_mem he
    obtain ⟨_, _, _, _, _, -, -, -, -, hlaw, -⟩ := committed h hlog hev
    have ho : e.tag.holder e.pid = _ := holder_of_creates hlaw.2
    rw [hev]
    refine ⟨?_, rfl⟩
    cases o with
    | none => cases hreq.symm.trans ho
    | some hash => exact Option.some_ne_none _
  · rw [hev]
    exact ⟨Option.some_ne_none _, rfl⟩

theorem holder_inj {start : DateTime} {pid : Nat}
    (h : (server app).Reach ok (System.init (World.start start)) c)
    (ha : holder c.log a = some (.request pid)) (hb : holder c.log b = some (.request pid)) : a = b := by
  obtain ⟨p, ev, hp, hev, hout, hto⟩ := handsTo_of_holder h ha
  obtain ⟨q, ev', hq, hev', hout', hto'⟩ := handsTo_of_holder h hb
  cases hp.symm.trans hq
  rw [handsOut_unique h (List.mem_of_getElem? hp) hev hev' hout hout'] at hto
  exact Option.some.inj (hto.symm.trans hto')

/-- An owner token stands for the random bytes that the request has drawn. -/
theorem drawn_of_returned {start : World} {pid : Nat} {token : String}
    (h : (server app).Reach ok (System.init start) c) (hret : returned c pid = some token) :
    ∃ p bs, c.procs[pid]? = some p ∧ ⟨.randomBytes 32, bs⟩ ∈ p.hist ∧
      token = Api.tokenPrefix ++ base64Url bs := by
  obtain ⟨⟨t, hist, rest⟩, o, hp, rfl, hissues, htok⟩ := returned_eq_some.mp hret
  have hobeys := h.obeys (task_issued app) _ (List.mem_of_getElem? hp)
  obtain ⟨bs, hbs, rfl⟩ := hobeys.drawn hissues token htok
  exact ⟨_, bs, hp, hbs, rfl⟩

theorem returned_inj {start : World} {pid pid' : Nat} {token : String}
    (h : (server app).Reach ok (System.init start) c) (hret : returned c pid = some token)
    (hret' : returned c pid' = some token) : pid = pid' := by
  obtain ⟨p, bs, hp, hbs, rfl⟩ := drawn_of_returned h hret
  obtain ⟨q, bs', hq, hbs', heq⟩ := drawn_of_returned h hret'
  have hbytes : bs = bs' := by
    refine base64Url_inj (String.toList_inj.mp ?_)
    have := congrArg String.toList heq
    simpa using this
  subst hbytes
  exact (drawnInv_of_reach h).unique pid pid' p q 32 32 bs hp hq hbs hbs'

theorem not_startsWith_domainTokenPrefix (s : String) :
    ¬Str.startsWith (Api.tokenPrefix ++ s) Api.domainTokenPrefix := by
  rw [Str.startsWith, String.toList_append]
  have hpre : Api.tokenPrefix.toList = ['a', 'm', '_'] := by decide
  have hdom : Api.domainTokenPrefix.toList = ['a', 'm', 'd', '_'] := by decide
  rw [hpre, hdom]
  simp [List.isPrefixOf]

/-! ## Whom the gate lets in -/

/-- The bearer token of the request and the owner tokens that were returned. -/
def tokensInvolved (c : ServerConf) (hs : Api.HeaderMap) : Set String :=
  {token | Api.bearerToken hs = some token ∨ ∃ pid, returned c pid = some token}

/-- Who may act on the mailbox `a`: the holder, with the token that it was given. -/
structure OwnerRule (app : AppState) (c : ServerConf) (a : String) (hs : Api.HeaderMap) : Prop where
  exists_iff : a ∈ c.world.store.mailboxes ↔ holder c.log a ≠ none
  authorizes_iff : Authorizes app c.world a hs ↔ ∃ pid token, holder c.log a = some (.request pid) ∧
    returned c pid = some token ∧ Api.bearerToken hs = some token
  /-- A token is returned by one request, which holds one mailbox at most. -/
  token_inj : ∀ pid pid' token, returned c pid = some token → returned c pid' = some token → pid = pid'
  holder_inj : ∀ b b' pid, holder c.log b = some (.request pid) →
    holder c.log b' = some (.request pid) → b = b'
  not_claim_token : ∀ token, Api.bearerToken hs = some token →
    Str.startsWith token Api.domainTokenPrefix → ¬Authorizes app c.world a hs

theorem Ledger.authorizes_iff (H : Ledger app c)
    (hsha : (tokensInvolved c hs).InjOn fun token => app.deps.sha256 (Str.asBytes token)) :
    Authorizes app c.world a hs ↔ ∃ pid token, holder c.log a = some (.request pid) ∧
      returned c pid = some token ∧ Api.bearerToken hs = some token := by
  rw [AnonyMail.authorizes_iff]
  have Ha := H a
  constructor
  · rintro ⟨mb, token, hrow, htok, hhash⟩
    rw [hrow] at Ha
    generalize hcur : holder c.log a = cur at Ha
    cases Ha with
    | catchAll hnone => cases hnone.symm.trans hhash
    | @request pid token' _ hret hhash' =>
      have heq : token' = token := by
        refine hsha (.inr ⟨pid, hret⟩) (.inl htok) (hex_inj ?_)
        exact Option.some.inj (hhash'.symm.trans hhash)
      subst heq
      exact ⟨pid, token', rfl, hret, htok⟩
  · rintro ⟨pid, token, hholder, hret, htok⟩
    rw [hholder] at Ha
    generalize hrow : c.world.store.mailboxes.lookup a = row at Ha
    cases Ha with
    | request hret' hhash =>
      cases hret.symm.trans hret'
      exact ⟨_, token, rfl, htok, hhash⟩

theorem Ledger.exists_iff (H : Ledger app c) :
    a ∈ c.world.store.mailboxes ↔ holder c.log a ≠ none := by
  have Ha := H a
  rw [← AList.lookup_isSome]
  generalize holder c.log a = cur at Ha ⊢
  generalize c.world.store.mailboxes.lookup a = row at Ha ⊢
  cases Ha with
  | absent => simp
  | catchAll => simp
  | request => simp

/-- In every run, an owner-gated request passes exactly with the token that the last create or
rotation of the mailbox has returned. -/
theorem ownerRule_of_reach {start : DateTime} {req : Api.Request}
    (h : (server app).Reach ok (System.init (World.start start)) c)
    (hreq : (Task.http req).ownerGated = some (a, hs))
    (hsha : (tokensInvolved c hs).InjOn fun token => app.deps.sha256 (Str.asBytes token)) :
    GatedBy app req a hs ∧ OwnerRule app c a hs := by
  have H := ledger_of_reach h
  have hiff := H.authorizes_iff (a := a) hsha
  refine ⟨gatedBy_of_ownerGated hreq, H.exists_iff, hiff, fun _ _ _ => returned_inj h,
    fun _ _ _ => holder_inj h, fun token htok hpre hauth => ?_⟩
  obtain ⟨pid, token', -, hret, htok'⟩ := hiff.mp hauth
  cases htok.symm.trans htok'
  obtain ⟨_, bs, -, -, rfl⟩ := drawn_of_returned h hret
  exact not_startsWith_domainTokenPrefix _ hpre

/-! A mailbox whose token was rotated, and an extension with the new token. -/

def rotatedHeaders : Api.HeaderMap :=
  [("authorization", Str.asBytes "Bearer am_AQEBAQEBAQEBAQEBAQEBAQEBAQEBAQEBAQEBAQEBAQE")]

def tokenList (c : ServerConf) (hs : Api.HeaderMap) : List String :=
  (Api.bearerToken hs).toList ++ (List.range c.procs.length).filterMap (returned c)

theorem mem_tokenList (h : token ∈ tokensInvolved c hs) : token ∈ tokenList c hs := by
  rw [tokenList, List.mem_append]
  obtain htok | ⟨pid, hret⟩ := h
  · exact .inl (by simp [htok])
  · obtain ⟨p, _, hp, -⟩ := returned_eq_some.mp hret
    refine .inr (List.mem_filterMap.mpr ⟨pid, List.mem_range.mpr ?_, hret⟩)
    exact (List.getElem?_eq_some_iff.mp hp).1

theorem ownerRule_of_reach_rotated : ∃ c,
    (server ownerServer).Reach (fun _ _ => True) (System.init (World.start 0)) c ∧
    holder c.log "box@example.com" = some (.request 1) ∧
    (GatedBy ownerServer (.extendAddress "box@example.com" rotatedHeaders) "box@example.com"
      rotatedHeaders ∧ OwnerRule ownerServer c "box@example.com" rotatedHeaders) := by
  have hrun : ((server ownerServer).run (fun _ _ => True) (System.init (World.start 0))
      (createMoves 0 0 ++ rotateMoves 1 1 ++ acts 1 [.uuids []])).any fun c =>
        decide (holder c.log "box@example.com" = some (.request 1)) &&
        (tokenList c rotatedHeaders).all fun x => (tokenList c rotatedHeaders).all fun y =>
          ownerServer.deps.sha256 (Str.asBytes x) != ownerServer.deps.sha256 (Str.asBytes y) ||
            x == y := by
    decide +kernel
  obtain ⟨c, hc, hP⟩ := System.Reach.exists_of_run hrun
  obtain ⟨hholder, hall⟩ := Bool.and_eq_true_iff.mp hP
  refine ⟨c, hc, of_decide_eq_true hholder, ownerRule_of_reach hc (by decide +kernel) ?_⟩
  intro x hx y hy hxy
  have h := List.all_eq_true.mp (List.all_eq_true.mp hall x (mem_tokenList hx)) y (mem_tokenList hy)
  simpa [show ownerServer.deps.sha256 (Str.asBytes x) = _ from hxy] using h

end AnonyMail
