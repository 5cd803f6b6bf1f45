import AnonyMail.Verify.Pruning
import AnonyMail.Verify.Receivers

/-! # Event streams

What the stream of a mailbox yields is the mail announced for that mailbox since it has subscribed, in
order and once; it is all of it, unless the bus has told the stream that it has fallen behind by more
than its capacity. With the announcements this leads from the saved copies to the clients. -/

namespace AnonyMail

open Calls Prog Broadcast

variable {B : Broadcast MailEvent} {app : AppState} {senders : Senders} {α β : Type} {D : Deps}
  {h tr : BusHist B}

/-! ## What is announced on the bus -/

def savedOnBus (D : Deps) : Event (BusEff.Ans (B := B)) → Option MailEvent
  | ⟨.push (.base e), r⟩ => savedEvent D ⟨e, r⟩
  | ⟨.push (.send ..), _⟩ | ⟨.subscribe, _⟩ | ⟨.recv _, _⟩ | ⟨.emit _, _⟩ => none

/-- What has been saved with the last call. -/
def owed (D : Deps) (h : BusHist B) : List MailEvent := (h.getLast?.bind (savedOnBus D)).toList

theorem owed_concat (ev : Event (BusEff.Ans (B := B))) :
    owed D (h ++ [ev]) = (savedOnBus D ev).toList := by
  rw [owed, List.getLast?_concat, Option.bind_some]

/-- The program announces what it saves with the next call, and nothing else. -/
structure BusSettles (D : Deps) (p : BusRun B α) : Prop where
  intro ::
  obeys (h : BusHist B) : owed D h = [] →
    Obeys (fun h e => e.announced = owed D h) (fun h' _ => owed D h' = []) h p

theorem busSettles_ret (a : α) : BusSettles D (.ret a : BusRun B α) := ⟨fun _ hh => hh⟩

theorem BusSettles.bind {p : BusRun B α} {f : α → BusRun B β} (hp : BusSettles D p)
    (hf : ∀ a, BusSettles D (f a)) : BusSettles D (p >>= f) :=
  ⟨fun h hh => obeys_bind.mpr ((hp.obeys h hh).mono fun h' a hh' => (hf a).obeys h' hh')⟩

theorem busSettles_call {e : BusEff B} {k : e.Ans → BusRun B α} (hann : e.announced = [])
    (hsave : ∀ r, savedOnBus D ⟨e, r⟩ = none) (hk : ∀ r, BusSettles D (k r)) :
    BusSettles D (.call e k) := by
  refine ⟨fun h hh => ⟨hann.trans hh.symm, fun r => (hk r).obeys _ ?_⟩⟩
  rw [owed_concat, hsave r]
  rfl

/-- A call of the server, on the bus. -/
def lift (ev : Event Eff.Ans) : Event (BusEff.Ans (B := B)) := ⟨.push (.base ev.1), ev.2⟩

theorem owed_lift (h₀ : BusHist B) (hh : owed D h₀ = []) (h : Hist) :
    owed D (h₀ ++ h.map lift) = unannounced D h := by
  rcases List.eq_nil_or_concat' h with rfl | ⟨h, ev, rfl⟩
  · rw [List.map_nil, List.append_nil, hh, unannounced_nil]
  · rw [List.map_append, List.map_singleton, ← List.append_assoc, owed_concat, unannounced_concat]
    rfl

theorem Settles.onBus {p : Run α} (hp : Settles D p) : BusSettles D (onPush (onBase p) : BusRun B α) := by
  refine ⟨fun h₀ hh => ?_⟩
  have H := hp.obeys [] (unannounced_nil D)
  suffices hgoal : ∀ h : Hist, Obeys (Announces D) (fun h' _ => unannounced D h' = []) h p →
      Obeys (fun h e => e.announced = owed D h) (fun h' _ => owed D h' = []) (h₀ ++ h.map lift)
        (onPush (onBase p) : BusRun B α) by
    simpa using hgoal [] H
  clear H hp
  intro h H
  induction p generalizing h with
  | ret a => exact (owed_lift h₀ hh h).trans H
  | call e k ih =>
    refine ⟨(H.1 : e.announced = _).trans (owed_lift h₀ hh h).symm, fun r => ?_⟩
    have hk := ih r (h ++ [⟨e, r⟩]) (H.2 r)
    rwa [List.map_append, ← List.append_assoc] at hk

/-- Neither a listing, nor a send, nor a delete saves or announces anything. -/
theorem settles_deliver (event : MailEvent) :
    BusSettles D (onPush (deliver senders event) : BusRun B Unit) := by
  have H : Obeys (DeliverCall event) (fun _ _ => True) [] (deliver senders event) := deliver_obeys
  generalize deliver senders event = p at H
  generalize ([] : PushHist) = h at H
  induction p generalizing h with
  | ret a => exact busSettles_ret a
  | call e k ih =>
    obtain ⟨hcall, hk⟩ := H
    have hsilent : e.announced = [] ∧ ∀ r, savedOnBus (B := B) D ⟨.push e, r⟩ = none := by
      unfold DeliverCall at hcall
      split at hcall
      · exact ⟨rfl, fun _ => rfl⟩
      · exact ⟨rfl, fun _ => rfl⟩
      · exact ⟨rfl, fun _ => rfl⟩
      · exact hcall.elim
    exact busSettles_call hsilent.1 hsilent.2 fun r => ih r _ (hk r)

variable {handle : MailEvent → BusRun B Unit} {n : Nat} {rx : B.Rx}

theorem settles_receive (hh : ∀ event, BusSettles D (handle event)) :
    BusSettles D (receive handle n rx) := by
  induction n generalizing rx with
  | zero => exact busSettles_ret ()
  | succ n ih =>
    rw [receive_succ]
    refine busSettles_call rfl (fun _ => rfl) fun r => ?_
    obtain ⟨res, rx'⟩ := r
    cases res with
    | value event => exact (hh event).bind fun _ => ih
    | lagged k => exact ih
    | closed => exact busSettles_ret ()

theorem settles_relay (address : String) (event : MailEvent) :
    BusSettles D (relay address event : BusRun B Unit) := by
  unfold relay
  split
  · exact busSettles_call rfl (fun _ => rfl) fun _ => busSettles_ret ()
  · exact busSettles_ret ()

theorem busTask_settles (t : BusTask) : BusSettles app.deps (t.prog app senders B) := by
  cases t with
  | server task => exact (task_settles app task).onBus
  | stream address peer headers polls =>
    rw [BusTask.prog, eventStream_eq]
    refine (closed_settles.of_plain (Api.plain_events address peer headers)).onBus.bind fun r => ?_
    cases r with
    | error e => exact busSettles_ret _
    | ok address =>
      refine busSettles_call rfl (fun _ => rfl) fun rx => ?_
      exact (settles_receive (settles_relay address)).bind fun _ => busSettles_ret _
  | pushWorker turns =>
    rw [BusTask.prog, pushWorker_eq]
    refine busSettles_call rfl (fun _ => rfl) fun rx => ?_
    exact (settles_receive settles_deliver).bind fun _ => busSettles_ret _

variable {ok : BusConf B → BusMove → Prop} {clock : DateTime} {c : BusConf B}

/-- The announcements of the copies that have been saved. -/
def savedInBus (D : Deps) (log : List (BusEntry B)) : List MailEvent :=
  log.flatMap fun x => (savedOnBus D ⟨x.call, x.answer⟩).toList

theorem bus_conserved
    (hreach : (busServer app senders B).Reach ok (System.init (.start B clock)) c) :
    (savedInBus app.deps c.log).Perm
      (c.world.rest.published ++ c.procs.flatMap fun p => owed app.deps p.hist) := by
  refine hreach.conserved (owed app.deps) (fun w => w.rest.published) rfl rfl (fun {c i t hist e k ch r w'} hc hi hx => ?_)
    fun {v x v'} henv => ?_
  · have hobeys := hc.obeys (Φ := fun _ h e => e.announced = owed app.deps h)
      (Q := fun _ h' _ => owed app.deps h' = [])
      (fun t => (busTask_settles t).obeys [] rfl) _ (List.mem_of_getElem? hi)
    have hann : e.announced = owed app.deps hist := hobeys.1
    rw [(execBus_world hx).1, hann, owed_concat]
  · cases henv
    cases x <;> rfl

theorem bus_distinct
    (hreach : (busServer app senders B).Reach ok (System.init (.start B clock)) c) :
    ((savedInBus app.deps c.log).map (·.id)).Nodup := by
  rw [savedInBus, List.map_flatMap]
  refine (hreach.distinct (fun w => w.rest.uuids) (fun {v e ch r v'} i t hx => ?_) fun henv => ?_).1
  · have hnone : ∀ {v' : BusWorld B}, v'.rest = v.rest →
        (([] : List MailEvent).map (·.id)).Nodup ∧ (∀ k ∈ ([] : List MailEvent).map (·.id),
          k ∉ v.rest.uuids ∧ k ∈ v'.rest.uuids) ∧ v.rest.uuids ⊆ v'.rest.uuids :=
      fun heq => ⟨List.nodup_nil, nofun, heq ▸ List.Subset.refl _⟩
    cases e with
    | push e =>
      obtain ⟨⟨r, rest⟩, hpush, heq⟩ := Option.map_eq_some_iff.mp hx
      cases heq
      cases e with
      | base e =>
        cases ch with
        | base ch => exact saved_drawn hpush
        | outcome => cases hpush
      | send =>
        cases ch <;> cases hpush
        exact hnone rfl
    | recv rx =>
      obtain ⟨x, -, heq⟩ := Option.map_eq_some_iff.mp hx
      cases heq
      exact hnone rfl
    | subscribe | emit =>
      cases hx
      exact hnone rfl
  · cases henv
    rename_i v x
    cases x <;> exact List.Subset.refl _

/-! ## What a stream yields -/

def emittedOf : Event (BusEff.Ans (B := B)) → Option SseEvent
  | ⟨.emit x, _⟩ => some x
  | ⟨.push _, _⟩ | ⟨.subscribe, _⟩ | ⟨.recv _, _⟩ => none

def emitted (h : BusHist B) : List SseEvent := h.filterMap emittedOf

@[simp] theorem emitted_append : emitted (h ++ tr) = emitted h ++ emitted tr := List.filterMap_append

theorem emitted_served (h : BusHist B) : emitted (served h) = emitted h := by
  rw [emitted, served, List.filterMap_filter, emitted]
  refine List.filterMap_congr fun ev _ => ?_
  obtain ⟨e, r⟩ := ev
  cases e <;> rfl

variable {address : String} {event : MailEvent} {q : BusRun B α}
  {past : List (MailEvent × BusHist B)} {current : Option (MailEvent × BusHist B)}

theorem emitted_of_runs (hr : Runs (relay address event) tr ()) :
    emitted tr = if event.address = address then [toSseEvent event] else [] := by
  unfold relay at hr
  split at hr
  · obtain ⟨_, tr', rfl, hret⟩ := runs_call.mp hr
    obtain ⟨rfl, -⟩ := runs_ret.mp hret
    rw [if_pos ‹_›]
    rfl
  · obtain ⟨rfl, -⟩ := runs_ret.mp hr
    rw [if_neg ‹_›]
    rfl

theorem emitted_of_leaves {p : BusRun B Unit} (hl : Leaves (relay address event) tr p)
    (hnot : ¬p.Done) : emitted tr = [] := by
  unfold relay at hl
  split at hl
  · cases hl with
    | nil => rfl
    | call hl =>
      obtain ⟨-, rfl⟩ := leaves_ret.mp hl
      exact absurd trivial hnot
  · obtain ⟨rfl, -⟩ := leaves_ret.mp hl
    rfl

/-- The stream has yielded the events of its mailbox of the rounds that are over. -/
theorem Rounds.emitted (H : Rounds (relay address) tr q past current) :
    emitted tr = ((past.map (·.1)).filter (·.address = address)).map toSseEvent := by
  have hcurrent : AnonyMail.emitted (current.toList.flatMap (·.2)) = [] := by
    cases current with
    | none => rfl
    | some x =>
      obtain ⟨p, f, hl, hnot, -⟩ := H.leaves x rfl
      rw [Option.toList_some, List.flatMap_singleton]
      exact emitted_of_leaves hl hnot
  have hruns := H.runs
  rw [← emitted_served, H.served, List.flatMap_append, emitted_append, hcurrent, List.append_nil]
  clear H hcurrent
  induction past with
  | nil => rfl
  | cons x past ih =>
    obtain ⟨hx, hover⟩ := List.forall_mem_cons.mp hruns
    rw [List.flatMap_cons, emitted_append, ih hover, emitted_of_runs hx, List.map_cons,
      List.filter_cons]
    by_cases hown : x.1.address = address
    · simp only [hown, if_true, decide_true]
      rfl
    · simp only [hown, if_false, decide_false, Bool.false_eq_true, List.nil_append]

theorem result_onPush {Q : α → Prop} {p : Run α} {h₀ : Hist}
    (H : Obeys (fun _ _ => True) (fun _ a => Q a) h₀ p) :
    Obeys (fun _ _ => True) (fun _ a => Q a) h (onPush (onBase p) : BusRun B α) := by
  induction p generalizing h h₀ with
  | ret a => exact H
  | call e k ih => exact ⟨trivial, fun r => ih r (H.2 r)⟩

theorem events_address (address : String) (peer : IpAddr) (headers : Api.HeaderMap) :
    Obeys (fun _ _ => True) (fun _ r => ∀ a, r = .ok a → a = Str.toAsciiLowercase address) []
      (Api.events app address peer headers).run := by
  refine ⟨trivial, fun admitted => ?_⟩
  cases admitted with
  | true => exact fun a heq => (Except.ok.inj heq).symm
  | false => exact fun a heq => nomatch heq

theorem emitted_onPush {p : PushRun α} {q : BusRun B α} (hl : Leaves (onPush p) tr q) :
    emitted tr = [] := by
  obtain ⟨tr', -, rfl, -, -⟩ := leaves_onPush hl
  refine List.filterMap_eq_nil_iff.mpr fun ev hev => ?_
  obtain ⟨ev', -, rfl⟩ := List.mem_map.mp hev
  rfl

/-- A stream has not subscribed yet, or forwards what it has received in rounds. -/
theorem stream_rounds {peer : IpAddr} {headers : Api.HeaderMap} {polls : Nat}
    {q : BusRun B Outcome} (hl : Leaves (eventStream app address peer headers polls) h q) :
    (receiver h = none ∧ emitted h = []) ∨
      ∃ rx tr past current, ⟨.subscribe, rx⟩ ∈ h ∧ answers h = answers tr ∧
        emitted h = emitted tr ∧ Rounds (relay (Str.toAsciiLowercase address)) tr q past current := by
  rw [eventStream_eq] at hl
  obtain ⟨p', hp, -, -⟩ | ⟨r, tr₁, tr₂, rfl, hr, hl⟩ := hl.of_bind
  · exact .inl ⟨receiver_of_quiet ((quiet_onPush _).leaves hp).1, emitted_onPush hp⟩
  have hquiet := ((quiet_onPush _).leaves hr.leaves).1
  have hyields := emitted_onPush hr.leaves
  cases r with
  | error e =>
    obtain ⟨rfl, -⟩ := leaves_ret.mp hl
    rw [List.append_nil]
    exact .inl ⟨receiver_of_quiet hquiet, hyields⟩
  | ok a =>
    have haddress : a = Str.toAsciiLowercase address :=
      (result_onPush (h := []) (events_address address peer headers)).result hr a rfl
    subst haddress
    cases hl with
    | nil =>
      rw [List.append_nil]
      exact .inl ⟨receiver_of_quiet hquiet, hyields⟩
    | @call _ _ rx tr _ hl =>
      obtain ⟨past, current, H⟩ := receive_rounds (quiet_relay _) hl fun _ => trivial
      refine .inr ⟨rx, tr, past, current, by simp, ?_, ?_, H⟩
      · rw [answers_append, answers_of_quiet hquiet]
        rfl
      · rw [emitted_append, hyields]
        rfl

/-- What the client of a stream has got, when `announced` is the mail announced since the stream has
subscribed and `rs` are the answers of the bus. -/
structure StreamServed (capacity : Nat) (address : String) (announced : List MailEvent)
    (rs : List (Received MailEvent)) (waiting : Prop) (sent : List SseEvent) : Prop where
  order : sent.Sublist ((announced.filter (·.address = address)).map toSseEvent)
  lag (n : Nat) : .lagged n ∈ rs → capacity < announced.length
  initial : (∀ n, .lagged n ∉ rs) →
    sent <+: (announced.filter (·.address = address)).map toSseEvent
  count : waiting → announced.length = (values rs).length + missed rs
  all : waiting → (∀ n, .lagged n ∉ rs) →
    sent = (announced.filter (·.address = address)).map toSseEvent

/-- A process that waits for the bus is not in the middle of a round. -/
theorem Rounds.current_eq {p : Proc BusTask (BusEff.Ans (B := B)) Outcome} (hq : QuietHandler handle)
    (H : Rounds handle tr p.rest past current) (hwait : Waiting c p) : current = none := by
  obtain ⟨rx, k, hrest, -⟩ := hwait
  cases current with
  | none => rfl
  | some x =>
    obtain ⟨q, f, hl, hnot, heq⟩ := H.leaves x rfl
    exact absurd (heq.symm.trans hrest) (((hq x.1).leaves hl).2.bind_ne_recv hnot)

theorem StreamServed.of_rounds {p : Proc BusTask (BusEff.Ans (B := B)) Outcome}
    {announced : List MailEvent} {capacity : Nat} (H : Rounds (relay address) tr p.rest past current)
    (hf : Follows capacity announced (answers tr) (Waiting c p)) :
    StreamServed capacity address announced (answers tr) (Waiting c p) (emitted tr) := by
  have hpre : past.map (·.1) <+: values (answers tr) := by
    rw [H.values, List.map_append]
    exact List.prefix_append ..
  have hsent : ∀ {l l' : List MailEvent}, l <+: l' →
      (l.filter (·.address = address)).map toSseEvent <+:
        (l'.filter (·.address = address)).map toSseEvent := fun h => (h.filter _).map _
  refine ⟨?_, hf.lag, fun hlag => ?_, hf.count, fun hwait hlag => ?_⟩
  · rw [H.emitted]
    exact ((hpre.sublist.trans hf.order).filter _).map _
  · rw [H.emitted]
    exact hsent (hpre.trans (hf.initial hlag))
  · have hvalues := H.values
    rw [H.current_eq (quiet_relay _) hwait, Option.toList_none, List.append_nil] at hvalues
    rw [H.emitted, ← hvalues, hf.all hwait hlag]

def onBusServer : ServerMove → BusMove
  | .spawn t => .spawn (.server t)
  | .act i c => .act (i + 1) (.base c)
  | .env x => .env x

/-- A client opens the stream of a mailbox, a message arrives, and the stream yields it. -/
def streamMoves : List BusMove :=
  [.spawn (.stream "D@Example.com" 0 [] 2), .act 0 (.base (.verdict true)), .act 0 (.base .answer)] ++
    acceptedSave.map onBusServer ++ [.act 0 (.base .answer), .act 0 (.base .answer)]

end AnonyMail
