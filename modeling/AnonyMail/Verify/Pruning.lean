import AnonyMail.Push
import AnonyMail.Verify.LocalParts
import AnonyMail.Verify.Subscriptions

/-! # Pruning of subscriptions

A `deliver` run deletes by mailbox and endpoint what its sends have reported gone. Between the
listing and the delete a client may register the same endpoint anew, or refresh it with other keys;
the run then deletes a registration that it has never tried. -/

namespace AnonyMail

open Calls Prog MemoryStore KeyedList

/-! ## The calls of a `deliver` run -/

/-- The outcomes of the sends, in order. -/
def reports (h : PushHist) : List (PushSubscription × PushOutcome) := h.filterMap fun
  | ⟨.send sub _, outcome⟩ => some (sub, outcome)
  | ⟨.base _, _⟩ => none

/-- The sends of the run so far went to different subscriptions of its listing, in order. -/
def SentFrom (event : MailEvent) (subs : List PushSubscription) (h : PushHist) : Prop :=
  (∃ rest, h = ⟨.base (.store (.listSubscriptions event.address)), .ok subs⟩ :: rest ∧
    ∀ ev ∈ rest, ∀ a, ev.1 ≠ .base (.store (.listSubscriptions a))) ∧
  ((reports h).map (·.1)).Sublist subs

/-- What a `deliver` run may call after the calls `h`. -/
def DeliverCall (event : MailEvent) (h : PushHist) : PushEff → Prop
  | .send sub _ => ∃ subs, SentFrom event subs h ∧ ((reports h).map (·.1) ++ [sub]).Sublist subs
  | .base (.store (.listSubscriptions a)) => a = event.address ∧ h = []
  | .base (.store (.deleteSubscription a endpoint)) => ∃ subs sub, SentFrom event subs h ∧
    (sub, .gone) ∈ reports h ∧ sub.key = (a, endpoint)
  | .base _ => False

def PushTask.MayCall : PushTask → PushHist → PushEff → Prop
  | .deliver event => DeliverCall event
  | .server _ => fun _ _ => True

variable {app : AppState} {senders : Senders} {event : MailEvent} {h : PushHist}
  {subs todo : List PushSubscription}

theorem SentFrom.concat {ev : Event PushEff.Ans} (hsent : SentFrom event subs h)
    (hev : ∀ a, ev.1 ≠ .base (.store (.listSubscriptions a)))
    (hle : ((reports (h ++ [ev])).map (·.1)).Sublist subs) : SentFrom event subs (h ++ [ev]) := by
  obtain ⟨⟨rest, rfl, hrest⟩, -⟩ := hsent
  refine ⟨⟨rest ++ [ev], rfl, fun ev' hev' => ?_⟩, hle⟩
  obtain hmem | hmem := List.mem_append.mp hev'
  · exact hrest ev' hmem
  · cases List.mem_singleton.mp hmem
    exact hev

theorem reports_send (sub : PushSubscription) (payload : PushPayload) (o : PushOutcome) :
    reports (h ++ [⟨.send sub payload, o⟩]) = reports h ++ [(sub, o)] := by
  simp [reports]

theorem reports_base (e : Eff) (r : e.Ans) : reports (h ++ [⟨.base e, r⟩]) = reports h := by
  simp [reports]

theorem sendAll_obeys (payload : PushPayload) (hsent : SentFrom event subs h)
    (hle : ((reports h).map (·.1) ++ todo).Sublist subs) : Obeys (DeliverCall event)
      (fun h' results => SentFrom event subs h' ∧ reports h' = reports h ++ results) h
      (sendAll senders payload todo) := by
  induction todo generalizing h with
  | nil => exact ⟨hsent, by simp⟩
  | cons sub todo ih =>
    rw [sendAll]
    split
    · have hone : ((reports h).map (·.1) ++ [sub]).Sublist subs := by
        refine List.Sublist.trans ?_ hle
        exact List.Sublist.append_left (List.singleton_sublist.mpr List.mem_cons_self) _
      refine ⟨⟨subs, hsent, hone⟩, fun o => ?_⟩
      have hmap : (reports (h ++ [⟨.send sub payload, o⟩])).map (·.1) =
          (reports h).map (·.1) ++ [sub] := by
        rw [reports_send, List.map_append, List.map_singleton]
      have hsent' : SentFrom event subs (h ++ [⟨.send sub payload, o⟩]) :=
        hsent.concat (by simp) (hmap ▸ hone)
      change Obeys _ _ _ (sendAll senders payload todo >>= fun results => pure ((sub, o) :: results))
      refine obeys_bind.mpr ((ih hsent' ?_).mono ?_)
      · rwa [hmap, List.append_assoc, List.singleton_append]
      · rintro h' results ⟨hsent', hreports⟩
        exact ⟨hsent', by rw [hreports, reports_send, List.append_assoc, List.singleton_append]⟩
    · refine ih hsent (List.Sublist.trans ?_ hle)
      exact List.Sublist.append_left (List.sublist_cons_self ..) _

theorem pruneGone_obeys {results : List (PushSubscription × PushOutcome)}
    (hsent : SentFrom event subs h) (hsub : ∀ x ∈ results, x ∈ reports h) :
    Obeys (DeliverCall event) (fun _ _ => True) h (pruneGone results) := by
  induction results generalizing h with
  | nil => trivial
  | cons x results ih =>
    obtain ⟨sub, outcome⟩ := x
    rw [pruneGone]
    split
    · next hgone =>
      subst hgone
      refine ⟨⟨subs, sub, hsent, hsub _ List.mem_cons_self, rfl⟩, fun r => ?_⟩
      have hsent' : SentFrom event subs
          (h ++ [⟨.base (.store (.deleteSubscription sub.mailboxAddress sub.endpoint)), r⟩]) :=
        hsent.concat (by simp) (by rw [reports_base]; exact hsent.2)
      refine ih hsent' fun x hx => ?_
      rw [reports_base]
      exact hsub x (List.mem_cons_of_mem _ hx)
    · exact ih hsent fun x hx => hsub x (List.mem_cons_of_mem _ hx)

theorem deliver_obeys : Obeys (DeliverCall event) (fun _ _ => True) [] (deliver senders event) := by
  refine ⟨⟨rfl, rfl⟩, fun r => ?_⟩
  cases r with
  | error e => trivial
  | ok subs =>
    change Obeys _ _ _ (if subs.isEmpty then _ else _)
    split
    · trivial
    · have hsent : SentFrom event subs
          [⟨.base (.store (.listSubscriptions event.address)), .ok subs⟩] :=
        ⟨⟨[], rfl, by simp⟩, List.nil_sublist _⟩
      refine obeys_bind.mpr ((sendAll_obeys _ hsent (List.Sublist.refl _)).mono ?_)
      rintro h' results ⟨hsent', hreports⟩
      exact pruneGone_obeys hsent' fun x hx => hreports ▸ List.mem_append_right _ hx

theorem task_mayCall (t : PushTask) :
    Obeys (t.MayCall) (fun _ _ => True) [] (t.prog app senders) := by
  cases t with
  | deliver event => exact obeys_bind.mpr (deliver_obeys.mono fun _ _ _ => trivial)
  | server task => exact obeys_trivial

/-! ## What a call does to the subscriptions -/

section Calls

variable {s : Inner} {q : MailboxQuotas} {now : DateTime} {ids : List Uuid} {w w' : World}
  {e : PushEff} {r : e.Ans} {ch : PushChoice} {y : PushSubscription}

/-- Only the endpoint that is registered changes. -/
theorem mem_of_mem_addSubscription {a endpoint p256dh auth : String} {kind : SubscriptionKind}
    {cap : Nat} {id : Uuid} (hkeys : Keyed PushSubscription.key s.subscriptions)
    (hy : y ∈ (addSubscription s a kind endpoint p256dh auth cap id now).2.subscriptions) :
    y ∈ s.subscriptions ∨ y.key = (a, endpoint) := by
  have hadd := @memory_add ⟨kind, endpoint, p256dh, auth, cap⟩ a id now s hkeys
  by_cases hrefused : ¬SubscribeArgs.Known ⟨kind, endpoint, p256dh, auth, cap⟩ a s.subscriptions ∧
      SubscribeArgs.Full ⟨kind, endpoint, p256dh, auth, cap⟩ a s.subscriptions
  · have hsame : (addSubscription s a kind endpoint p256dh auth cap id now).2.subscriptions =
        s.subscriptions := congrArg Prod.snd (hadd.refuse hrefused)
    exact .inl (hsame ▸ hy)
  · by_cases hkey : y.key = (a, endpoint)
    · exact .inr hkey
    · have htable : (addSubscription s a kind endpoint p256dh auth cap id now).2.subscriptions =
          SubscribeArgs.upserted ⟨kind, endpoint, p256dh, auth, cap⟩ a s.subscriptions id now :=
        (hadd.perform hrefused).table
      rw [htable] at hy
      exact .inl ((mem_upsert_of_ne key_refresh hkey).mp hy)

theorem execPush_cases (hx : execPush app w e ch = some (r, w')) : w'.store = w.store ∨
    ∃ op ids r', (⟨e, r⟩ : Event PushEff.Ans) = ⟨.base (.store op), r'⟩ ∧
      op.apply app.config.mailboxQuotas w.store w.clock ids = (r', w'.store) := by
  cases e with
  | send => cases ch <;> cases hx; exact .inl rfl
  | base e =>
    cases ch with
    | outcome => cases hx
    | base ch =>
      replace hx : exec app w e ch = some (r, w') := hx
      cases e with
      | store op =>
        obtain ⟨-, -, rfl⟩ | ⟨ids, -, -, -, -, hap, -⟩ := exec_store_cases hx
        · exact .inl rfl
        · exact .inr ⟨op, ids, r, rfl, hap⟩
      | _ => exact .inl (exec_store_eq hx (by simp))

theorem listing_exec {a : String} {subs : List PushSubscription}
    (hx : execPush app w (.base (.store (.listSubscriptions a))) ch = some (.ok subs, w')) :
    subs = listSubscriptions w.store a ∧ w'.store = w.store := by
  cases ch with
  | outcome => cases hx
  | base ch =>
    replace hx : exec app w (.store (.listSubscriptions a)) ch = some (.ok subs, w') := hx
    obtain ⟨-, h, -⟩ | ⟨ids, -, -, -, -, hap, -⟩ := exec_store_cases hx
    · cases h
    · obtain ⟨hsubs, hw⟩ := Prod.mk.inj hap
      exact ⟨(Except.ok.inj hsubs).symm, hw.symm⟩

theorem keyed_exec (hx : execPush app w e ch = some (r, w'))
    (hkeys : Keyed PushSubscription.key w.store.subscriptions) :
    Keyed PushSubscription.key w'.store.subscriptions := by
  obtain hw | ⟨op, ids, r', -, hap⟩ := execPush_cases hx
  · rwa [hw]
  · have hw : w'.store = (op.apply app.config.mailboxQuotas w.store w.clock ids).2 := by rw [hap]
    rw [hw]
    obtain hle | ⟨a, kind, endpoint, p256dh, auth, cap, rfl⟩ := subscriptions_apply op
    · exact List.Nodup.sublist (hle.map _) hkeys
    · exact (@memory_add ⟨kind, endpoint, p256dh, auth, cap⟩ a (ids.headD 0) w.clock w.store
        hkeys).keyed hkeys

/-- A subscription that is new or changed has been registered. -/
theorem mem_exec (hx : execPush app w e ch = some (r, w'))
    (hkeys : Keyed PushSubscription.key w.store.subscriptions) (hy : y ∈ w'.store.subscriptions) :
    y ∈ w.store.subscriptions ∨ ∃ kind p256dh auth cap,
      e = .base (.store (.addSubscription y.mailboxAddress kind y.endpoint p256dh auth cap)) := by
  obtain hw | ⟨op, ids, r', hev, hap⟩ := execPush_cases hx
  · exact .inl (hw ▸ hy)
  · cases hev
    have hw : w'.store = (op.apply app.config.mailboxQuotas w.store w.clock ids).2 := by rw [hap]
    rw [hw] at hy
    obtain hle | ⟨a, kind, endpoint, p256dh, auth, cap, rfl⟩ := @subscriptions_apply
      app.config.mailboxQuotas w.store w.clock ids op
    · exact .inl (hle.subset hy)
    · obtain hold | hkey := mem_of_mem_addSubscription hkeys hy
      · exact .inl hold
      · obtain ⟨rfl, rfl⟩ := Prod.mk.inj hkey
        exact .inr ⟨kind, p256dh, auth, cap, rfl⟩

end Calls

/-! ## Registrations since the listing -/

abbrev PushEntry := Entry World PushTask PushEff.Ans

abbrev PushMove := Move PushTask PushChoice Tick

/-- The call registers the endpoint anew, or refreshes it with another kind or other keys. -/
def registers (a endpoint : String) (e : PushEntry) : Bool :=
  match e.call with
  | .base (.store (.addSubscription a' _ endpoint' _ _ _)) => a' == a && endpoint' == endpoint &&
    e.before.store.subscriptions != e.after.store.subscriptions
  | _ => false

def isListing : PushEff → Bool
  | .base (.store (.listSubscriptions _)) => true
  | _ => false

/-- The endpoint has been registered or refreshed since the process listed the subscriptions. -/
def reregistered (log : List PushEntry) (i : Nat) (a endpoint : String) : Bool :=
  since (fun e => e.pid == i && isListing e.call) (registers a endpoint) log

/-- No `deliver` run deletes an endpoint that has been registered or refreshed since its listing. -/
def prunesInTime (c : PushConf) : PushMove → Bool
  | .act i _ =>
    match c.procs[i]? with
    | some ⟨.deliver _, _, .call (.base (.store (.deleteSubscription a endpoint))) _⟩ =>
      !reregistered c.log i a endpoint
    | _ => true
  | _ => true

/-- While an endpoint is not registered again, what is there of it is what was listed. -/
structure ListedInv (c : PushConf) : Prop where
  keyed : Keyed PushSubscription.key c.world.store.subscriptions
  listed : ∀ (i : Nat) p event subs x y, c.procs[i]? = some p → p.tag = .deliver event →
    ⟨.base (.store (.listSubscriptions event.address)), .ok subs⟩ ∈ p.hist → x ∈ subs →
    y ∈ c.world.store.subscriptions → y.key = x.key →
    reregistered c.log i x.mailboxAddress x.endpoint = false → y = x
  listing : ∀ p ∈ c.procs, ∀ a subs,
    ⟨.base (.store (.listSubscriptions a)), .ok subs⟩ ∈ p.hist → Keyed PushSubscription.key subs

theorem registers_of_new {i : Nat} {t : PushTask} {w w' : World} {y : PushSubscription}
    {kind : SubscriptionKind} {p256dh auth : String} {cap : Nat} {r}
    (hnot : y ∉ w.store.subscriptions) (hy : y ∈ w'.store.subscriptions) :
    registers y.mailboxAddress y.endpoint ⟨i, t, w, .base (.store (.addSubscription y.mailboxAddress
      kind y.endpoint p256dh auth cap)), r, w'⟩ = true := by
  have hne : w.store.subscriptions ≠ w'.store.subscriptions := fun heq => hnot (heq ▸ hy)
  simp [registers, hne]

variable {c c' : PushConf} {m : PushMove}

theorem ListedInv.listing_act {i : Nat} {t : PushTask} {hist : PushHist} {e : PushEff}
    {k : e.Ans → PushRun Outcome} {ch : PushChoice} {r : e.Ans} {w : World} (hinv : ListedInv c)
    (hi : c.procs[i]? = some ⟨t, hist, .call e k⟩) (hx : execPush app c.world e ch = some (r, w)) :
    ∀ p ∈ c.procs.set i ⟨t, hist ++ [⟨e, r⟩], k r⟩, ∀ a subs,
      ⟨.base (.store (.listSubscriptions a)), .ok subs⟩ ∈ p.hist →
      Keyed PushSubscription.key subs := by
  intro p hp a subs hlist
  obtain hp | rfl := System.mem_act hp
  · exact hinv.listing p hp a subs hlist
  · obtain hlist | hlist := List.mem_append.mp hlist
    · exact hinv.listing _ (List.mem_of_getElem? hi) a subs hlist
    · cases List.mem_singleton.mp hlist
      rw [(listing_exec hx).1]
      exact List.Nodup.sublist (List.filter_sublist.map _) hinv.keyed

theorem ListedInv.step (hinv : ListedInv c)
    (hlaw : ∀ p ∈ c.procs, System.Lawful PushTask.MayCall p)
    (hs : (pushServer app senders).step c m = some c') : ListedInv c' := by
  obtain ⟨t, -, rfl⟩ | ⟨j, ch, t, hist, e, k, r, w, -, hj, hx, rfl⟩ | ⟨x, w, -, hw, rfl⟩ :=
    System.step_cases hs
  · refine ⟨hinv.keyed, fun i p event subs x y hi ht hlist => ?_, fun p hp a subs hlist => ?_⟩
    · obtain hi | rfl := System.getElem?_spawn hi
      · exact hinv.listed i p event subs x y hi ht hlist
      · cases hlist
    · obtain hp | rfl := System.mem_spawn hp
      · exact hinv.listing p hp a subs hlist
      · cases hlist
  · replace hx : execPush app c.world e ch = some (r, w) := hx
    refine ⟨keyed_exec hx hinv.keyed, fun i p event subs x y hi ht hlist hxs hy hkey hnot => ?_,
      hinv.listing_act hj hx⟩
    rw [reregistered, since_concat] at hnot
    -- a listing that was made before, and is not made again by this call
    have hold : ∀ {p : Proc PushTask PushEff.Ans Outcome}, c.procs[i]? = some p →
        p.tag = .deliver event →
        ⟨.base (.store (.listSubscriptions event.address)), .ok subs⟩ ∈ p.hist →
        (j == i && isListing e) = false → y = x := by
      intro p₀ hi₀ ht₀ hlist₀ hstart
      rw [hstart, Bool.not_false, Bool.true_and, Bool.or_eq_false_iff] at hnot
      obtain hy | ⟨kind, p256dh, auth, cap, rfl⟩ := mem_exec hx hinv.keyed hy
      · exact hinv.listed i p₀ event subs x y hi₀ ht₀ hlist₀ hxs hy hkey hnot.2
      · by_cases hmem : y ∈ c.world.store.subscriptions
        · exact hinv.listed i p₀ event subs x y hi₀ ht₀ hlist₀ hxs hmem hkey hnot.2
        · obtain ⟨hm, he⟩ := Prod.mk.inj hkey
          rw [← hm, ← he] at hnot
          exact absurd (registers_of_new hmem hy) (by rw [hnot.1]; decide)
    obtain ⟨rfl, rfl⟩ | ⟨hne, hi⟩ := System.getElem?_act hi
    · dsimp only at ht hlist
      subst ht
      have hcall := (hlaw _ (List.mem_of_getElem? hj)).1
      obtain hmade | hmade := List.mem_append.mp hlist
      · refine hold hj rfl hmade ?_
        cases hl : isListing e with
        | false => exact Bool.and_false _
        | true =>
          unfold isListing at hl
          split at hl
          · obtain ⟨-, rfl⟩ := hcall
            exact absurd hmade List.not_mem_nil
          · cases hl
      · cases List.mem_singleton.mp hmade
        obtain ⟨rfl, hw⟩ := listing_exec hx
        rw [hw] at hy
        exact hinv.keyed.eq hy (List.mem_of_mem_filter hxs) hkey
    · exact hold hi ht hlist (by rw [beq_eq_false_iff_ne.mpr (Ne.symm hne), Bool.false_and])
  · cases hw
    refine ⟨?_, fun i p event subs z y => ?_, hinv.listing⟩
    · cases x <;> exact hinv.keyed
    · cases x <;> exact hinv.listed i p event subs z y

/-! ## What a run removes -/

theorem mem_reports {x : PushSubscription} {o : PushOutcome} :
    (x, o) ∈ reports h ↔ ∃ payload, ⟨.send x payload, o⟩ ∈ h := by
  rw [reports, List.mem_filterMap]
  constructor
  · rintro ⟨⟨e, r⟩, hmem, heq⟩
    cases e with
    | send sub payload => cases heq; exact ⟨payload, hmem⟩
    | base e => cases heq
  · rintro ⟨payload, hmem⟩
    exact ⟨_, hmem, rfl⟩

/-- The sends of a `deliver` run go to what it has listed. -/
def SentInv (c : PushConf) : Prop :=
  ∀ p ∈ c.procs, ∀ event, p.tag = .deliver event →
    reports p.hist = [] ∨ ∃ subs, SentFrom event subs p.hist

theorem SentInv.step (hinv : SentInv c) (hlaw : ∀ p ∈ c.procs, System.Lawful PushTask.MayCall p)
    (hs : (pushServer app senders).step c m = some c') : SentInv c' := by
  intro p hp event ht
  obtain ⟨t, -, rfl⟩ | ⟨i, ch, t, hist, e, k, r, w, -, hi, hx, rfl⟩ | ⟨x, w, -, hw, rfl⟩ :=
    System.step_cases hs
  · obtain hp | rfl := System.mem_spawn hp
    · exact hinv p hp event ht
    · exact .inl rfl
  · obtain hp | rfl := System.mem_act hp
    · exact hinv p hp event ht
    · dsimp only at ht
      subst ht
      have hcall : DeliverCall event hist e := (hlaw _ (List.mem_of_getElem? hi)).1
      unfold DeliverCall at hcall
      split at hcall
      · obtain ⟨subs, hsent, hle⟩ := hcall
        refine .inr ⟨subs, hsent.concat (by simp) ?_⟩
        rwa [reports_send, List.map_append, List.map_singleton]
      · obtain ⟨-, rfl⟩ := hcall
        exact .inl rfl
      · obtain ⟨subs, sub, hsent, -⟩ := hcall
        refine .inr ⟨subs, hsent.concat (by simp) ?_⟩
        rw [reports_base]
        exact hsent.2
      · exact hcall.elim
  · exact hinv p hp event ht

/-- What a `deliver` run removes is a registration whose send has reported `Gone`, and no other of
its sends says anything else of it. -/
def PrunesGone (c : PushConf) : Prop :=
  ∀ e ∈ c.log, ∀ event, e.tag = .deliver event →
    ∀ x ∈ e.before.store.subscriptions, x ∉ e.after.store.subscriptions →
    ∃ p, c.procs[e.pid]? = some p ∧ (∃ payload, ⟨.send x payload, .gone⟩ ∈ p.hist) ∧
      ∀ payload o, ⟨.send x payload, o⟩ ∈ p.hist → o = .gone

/-- A run reports once on each subscription. -/
theorem report_unique {p : Proc PushTask PushEff.Ans Outcome} {x : PushSubscription}
    {o o' : PushOutcome} (hinv : ListedInv c) (hsent : SentInv c) (hp : p ∈ c.procs)
    (ht : p.tag = .deliver event) (ho : (x, o) ∈ reports p.hist) (ho' : (x, o') ∈ reports p.hist) :
    o = o' := by
  obtain hnil | ⟨subs, ⟨rest, hhist, -⟩, hle⟩ := hsent p hp event ht
  · rw [hnil] at ho
    cases ho
  · have hkeyed := hinv.listing p hp event.address subs (hhist ▸ List.mem_cons_self)
    have hnodup : ((reports p.hist).map (·.1)).Nodup := hle.nodup (List.Nodup.of_map _ hkeyed)
    exact congrArg Prod.snd (List.inj_on_of_nodup_map hnodup ho ho' rfl)

theorem removed_key {s : Inner} {a endpoint : String} {x : PushSubscription}
    (hx : x ∈ s.subscriptions) (hx' : x ∉ (deleteSubscription s a endpoint).2.subscriptions) :
    x.key = (a, endpoint) := by
  by_contra hne
  refine hx' (List.mem_filter.mpr ⟨hx, ?_⟩)
  simp only [PushSubscription.key, Prod.mk.injEq, not_and_or] at hne
  simpa using hne

/-- The only call of a run that removes anything is a delete. -/
theorem delete_of_removed {e : PushEff} {r : e.Ans} {ch : PushChoice} {w w' : World}
    {x : PushSubscription} (hcall : DeliverCall event h e) (hx : execPush app w e ch = some (r, w'))
    (hmem : x ∈ w.store.subscriptions) (hnot : x ∉ w'.store.subscriptions) :
    ∃ subs sub, e = .base (.store (.deleteSubscription x.mailboxAddress x.endpoint)) ∧
      SentFrom event subs h ∧ (sub, .gone) ∈ reports h ∧ sub.key = x.key := by
  obtain hw | ⟨op, ids, r', hev, hap⟩ := execPush_cases hx
  · exact absurd (hw ▸ hmem) hnot
  · cases hev
    unfold DeliverCall at hcall
    split at hcall
    · next heq => cases heq
    · next heq =>
      cases heq
      obtain ⟨-, hw⟩ := Prod.mk.inj hap
      exact absurd (hw ▸ hmem) hnot
    · next heq =>
      cases heq
      obtain ⟨subs, sub, hsent, hgone, hkey⟩ := hcall
      have hw : w'.store = (deleteSubscription w.store _ _).2 := (congrArg Prod.snd hap).symm
      have hxkey := removed_key hmem (hw ▸ hnot)
      obtain ⟨rfl, rfl⟩ := Prod.mk.inj hxkey
      exact ⟨subs, sub, rfl, hsent, hgone, hkey⟩
    · exact hcall.elim

/-- If no run deletes an endpoint that has been registered or refreshed since its listing, runs remove
only what has reported `Gone`. -/
theorem prunesGone_of_inTime (w : World) (hw : Keyed PushSubscription.key w.store.subscriptions)
    (hreach : (pushServer app senders).Reach (prunesInTime · ·) (System.init w) c) :
    PrunesGone c := by
  have hinit : ListedInv (System.init w) ∧ SentInv (System.init w) :=
    ⟨⟨hw, by simp [System.init], by simp [System.init]⟩, by simp [SentInv, System.init]⟩
  have hinv : ∀ {c}, (pushServer app senders).Reach (prunesInTime · ·) (System.init w) c →
      ListedInv c ∧ SentInv c := fun hc =>
    hc.invariant (I := fun c => ListedInv c ∧ SentInv c) hinit fun hc' hinv _ hs =>
      ⟨hinv.1.step (hc'.lawful task_mayCall) hs, hinv.2.step (hc'.lawful task_mayCall) hs⟩
  rintro ⟨i, t, before, call, answer, after⟩ he event ht x hmem hnot
  obtain ⟨l₁, l₂, hlog⟩ := List.append_of_mem he
  obtain ⟨c₁, c₂, ch, hist, k, h₁, hl, hbefore, hi, hok, -, hx, -⟩ := hreach.split_log hlog
  dsimp only at ht hmem hnot hbefore hi hok hx
  subst ht
  have hcall : DeliverCall event hist call := (h₁.lawful task_mayCall _ (List.mem_of_getElem? hi)).1
  obtain ⟨subs, sub, hdel, ⟨⟨rest, rfl, -⟩, hle⟩, hgone, hkey⟩ := delete_of_removed hcall hx hmem hnot
  have hsub : sub ∈ subs := hle.subset (List.mem_map.mpr ⟨_, hgone, rfl⟩)
  obtain ⟨hm, hend⟩ := Prod.mk.inj hkey
  have htime : reregistered c₁.log i sub.mailboxAddress sub.endpoint = false := by
    subst hdel
    simpa [prunesInTime, hi, hm, hend] using hok
  have hxsub : x = sub := (hinv h₁).1.listed i _ event subs sub x hi rfl List.mem_cons_self hsub
    (hbefore ▸ hmem) hkey.symm htime
  subst hxsub
  obtain ⟨payload, hsend⟩ := mem_reports.mp hgone
  obtain ⟨e', he', hpid, htag, hev⟩ := h₁.mem_log_of_hist hi hsend
  rw [hl] at he'
  obtain ⟨p, hp, hptag, hmem'⟩ := hreach.mem_hist_of_log e' (hlog ▸ List.mem_append_left _ he')
  rw [hev] at hmem'
  rw [hpid] at hp
  have htag' : p.tag = .deliver event := hptag.trans htag
  refine ⟨p, hp, ⟨payload, hmem'⟩, fun payload' o ho => ?_⟩
  exact report_unique (hinv hreach).1 (hinv hreach).2 (List.mem_of_getElem? hp) htag'
    (mem_reports.mpr ⟨payload', ho⟩) (mem_reports.mpr ⟨payload, hmem'⟩)

/-! A client that registers an endpoint twice, with other keys the second time. -/

def onPushServer : ServerMove → PushMove
  | .spawn t => .spawn (.server t)
  | .act i c => .act i (.base c)
  | .env x => .env x

/-- `ownerServer` with Web Push. -/
def pushApp : AppState :=
  { ownerServer with config :=
    { ownerServer.config with vapidPublicKey := some "public", vapidPrivateKey := some "private" } }

/-- The owner of the mailbox registers an endpoint with these keys. -/
def subscribeMoves (i : Nat) (p256dh : String) (id : Uuid) : List ServerMove :=
  .spawn (.http (.subscribe "aaaaaaaaaa@example.com" ownerHeaders
    (some ⟨some .webPush, some "https://push", some ⟨p256dh, "auth"⟩, none⟩))) ::
      acts i [.uuids [], .uuids [id]]

def pushEvent : MailEvent := ⟨"aaaaaaaaaa@example.com", 0, "", none, 0, false, none⟩

/-- A `deliver` run whose send reports `Gone`, with what happens between its listing and its send. -/
def goneMoves (between : List PushMove) : List PushMove :=
  (createRandomMoves (List.replicate 10 0) ++ subscribeMoves 1 "old" 1).map onPushServer ++
    [.spawn (.deliver pushEvent), .act 2 (.base (.uuids []))] ++ between ++
    [.act 2 (.outcome .gone), .act 2 (.base (.uuids []))]

def PushTask.isDeliver : PushTask → Bool
  | .deliver _ => true
  | .server _ => false

/-- A `deliver` run has removed a subscription of which its sends say this. -/
def removes (P : List PushOutcome → Bool) (c : PushConf) : Bool :=
  c.log.any fun e => e.tag.isDeliver && e.before.store.subscriptions.any fun x =>
    !e.after.store.subscriptions.contains x && (c.procs[e.pid]?).any fun p =>
      P (((reports p.hist).filter (·.1 == x)).map (·.2))

theorem exists_of_removes {P : List PushOutcome → Bool} (h : removes P c) :
    ∃ e ∈ c.log, ∃ event, e.tag = .deliver event ∧ ∃ x ∈ e.before.store.subscriptions,
      x ∉ e.after.store.subscriptions ∧ ∃ p, c.procs[e.pid]? = some p ∧
        P (((reports p.hist).filter (·.1 == x)).map (·.2)) := by
  obtain ⟨e, he, h⟩ := List.any_eq_true.mp h
  obtain ⟨ht, h⟩ := Bool.and_eq_true_iff.mp h
  obtain ⟨x, hx, h⟩ := List.any_eq_true.mp h
  obtain ⟨hnot, h⟩ := Bool.and_eq_true_iff.mp h
  obtain ⟨p, hp, hP⟩ := (Option.any_eq_true ..).mp h
  have hevent : ∃ event, e.tag = .deliver event := by
    cases htag : e.tag with
    | deliver event => exact ⟨event, rfl⟩
    | server task => rw [htag] at ht; cases ht
  obtain ⟨event, htag⟩ := hevent
  exact ⟨e, he, event, htag, x, hx, by simpa using hnot, p, hp, hP⟩

theorem prunesGone_of_inTime_gone : ∃ c : PushConf, removes (· == [.gone]) c ∧ PrunesGone c := by
  have hrun : ((pushServer pushApp ⟨true, false⟩).run (prunesInTime · ·)
      (System.init (World.start 0)) (goneMoves [])).any (removes (· == [.gone])) := by
    decide +kernel
  obtain ⟨c, hc, hP⟩ := System.Reach.exists_of_run hrun
  exact ⟨c, hP, prunesGone_of_inTime (World.start 0) List.nodup_nil hc⟩

/-- The keys are refreshed while the send to the old ones is under way. -/
theorem not_prunesGone : ¬∀ (app : AppState) (senders : Senders) (w : World) (c : PushConf),
    Keyed PushSubscription.key w.store.subscriptions →
    (pushServer app senders).Reach (fun _ _ => True) (System.init w) c → PrunesGone c := by
  intro H
  have hrun : ((pushServer pushApp ⟨true, false⟩).run (fun _ _ => True)
      (System.init (World.start 0))
      (goneMoves ((subscribeMoves 3 "new" 2).map onPushServer))).any (removes (·.isEmpty)) := by
    decide +kernel
  obtain ⟨c, hc, hP⟩ := System.Reach.exists_of_run hrun
  obtain ⟨e, he, event, ht, x, hx, hnot, p, hp, hnone⟩ := exists_of_removes hP
  obtain ⟨p', hp', ⟨payload, hsend⟩, -⟩ :=
    H pushApp ⟨true, false⟩ (World.start 0) c List.nodup_nil hc e he event ht x hx hnot
  cases hp.symm.trans hp'
  have hmem : PushOutcome.gone ∈ ((reports p.hist).filter (·.1 == x)).map (·.2) :=
    List.mem_map.mpr ⟨(x, .gone), List.mem_filter.mpr
      ⟨mem_reports.mpr ⟨payload, hsend⟩, beq_self_eq_true x⟩, rfl⟩
  rw [List.isEmpty_iff.mp hnone] at hmem
  cases hmem

end AnonyMail
