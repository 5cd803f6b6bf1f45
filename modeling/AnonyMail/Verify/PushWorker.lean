import AnonyMail.Verify.EventStreams

/-! # The push worker

The worker takes the announced mail one event after the other. For each it lists the subscriptions of
the mailbox, sends once to each that has a sender, and deletes those that have reported `Gone`; the
next event waits until this is done. -/

namespace AnonyMail

open Calls Prog Broadcast

variable {B : Broadcast MailEvent} {app : AppState} {senders : Senders} {event : MailEvent}

/-! ## One event -/

def MailEvent.payload (event : MailEvent) : PushPayload :=
  ⟨event.address, event.id, event.mailFrom, event.subject, event.code⟩

/-- The calls of a `deliver` run that is over. -/
inductive Delivered (senders : Senders) (event : MailEvent) : PushHist → Prop
  | unlisted (e : StoreError) :
    Delivered senders event [⟨.base (.store (.listSubscriptions event.address)), .error e⟩]
  | listed {subs : List PushSubscription} {results : List (PushSubscription × PushOutcome)}
    {deletes : PushHist} :
    results.map (·.1) = subs.filter (senders.forKind ·.kind) →
    deletes.map (·.1) = (results.filter (·.2 = .gone)).map (fun x =>
      .base (.store (.deleteSubscription x.1.mailboxAddress x.1.endpoint))) →
    Delivered senders event (⟨.base (.store (.listSubscriptions event.address)), .ok subs⟩ ::
      (results.map (fun x => ⟨.send x.1 event.payload, x.2⟩) ++ deletes))

theorem runs_sendAll {payload : PushPayload} {subs : List PushSubscription} {tr : PushHist}
    {results : List (PushSubscription × PushOutcome)}
    (hr : Runs (sendAll senders payload subs) tr results) :
    results.map (·.1) = subs.filter (senders.forKind ·.kind) ∧
      tr = results.map fun x => ⟨.send x.1 payload, x.2⟩ := by
  induction subs generalizing tr results with
  | nil =>
    obtain ⟨rfl, rfl⟩ := runs_ret.mp hr
    exact ⟨rfl, rfl⟩
  | cons sub subs ih =>
    rw [sendAll] at hr
    split at hr
    · next hkind =>
      obtain ⟨outcome, tr', rfl, hk⟩ := runs_call.mp hr
      change Runs (sendAll senders payload subs >>= fun l => .ret ((sub, outcome) :: l)) tr' results
        at hk
      obtain ⟨l, tr₁, tr₂, rfl, hsends, hret⟩ := runs_bind.mp hk
      obtain ⟨rfl, rfl⟩ := runs_ret.mp hret
      obtain ⟨hresults, rfl⟩ := ih hsends
      rw [List.filter_cons_of_pos (by exact hkind), List.append_nil]
      exact ⟨congrArg (sub :: ·) hresults, rfl⟩
    · next hkind =>
      rw [List.filter_cons_of_neg (by exact hkind)]
      exact ih hr

theorem runs_pruneGone {results : List (PushSubscription × PushOutcome)} {tr : PushHist}
    (hr : Runs (pruneGone results) tr ()) :
    tr.map (·.1) = (results.filter (·.2 = .gone)).map fun x =>
      .base (.store (.deleteSubscription x.1.mailboxAddress x.1.endpoint)) := by
  induction results generalizing tr with
  | nil =>
    obtain ⟨rfl, -⟩ := runs_ret.mp hr
    rfl
  | cons x results ih =>
    obtain ⟨sub, outcome⟩ := x
    rw [pruneGone] at hr
    split at hr
    · next hgone =>
      obtain ⟨_, tr', rfl, hdeletes⟩ := runs_call.mp hr
      rw [List.filter_cons_of_pos (by exact decide_eq_true hgone)]
      exact congrArg (_ :: ·) (ih hdeletes)
    · next hgone =>
      rw [List.filter_cons_of_neg (by exact ne_true_of_eq_false (decide_eq_false hgone))]
      exact ih hr

theorem delivered_of_runs {tr : PushHist} (hr : Runs (deliver senders event) tr ()) :
    Delivered senders event tr := by
  obtain ⟨listing, tr', rfl, hrest⟩ := runs_call.mp hr
  cases listing with
  | error e =>
    obtain ⟨rfl, -⟩ := runs_ret.mp hrest
    exact .unlisted e
  | ok subs =>
    change Runs (if subs.isEmpty then _ else _) tr' () at hrest
    split at hrest
    · next hnil =>
      obtain ⟨rfl, -⟩ := runs_ret.mp hrest
      rw [List.isEmpty_iff.mp hnil]
      exact @Delivered.listed senders event [] [] [] rfl rfl
    · obtain ⟨results, tr₁, tr₂, rfl, hsend, hprune⟩ := runs_bind.mp hrest
      obtain ⟨hresults, rfl⟩ := runs_sendAll hsend
      exact .listed hresults (runs_pruneGone hprune)

/-- A `deliver` run that is not over can be brought to its end. -/
theorem delivered_of_leaves {tr : PushHist} {q : PushRun Unit}
    (hl : Leaves (deliver senders event) tr q) : ∃ more, Delivered senders event (tr ++ more) := by
  have hanswered : ∀ h e, DeliverCall event h e → Nonempty e.Ans := by
    intro h e hcall
    unfold DeliverCall at hcall
    split at hcall
    · exact ⟨.delivered⟩
    · exact ⟨.error .other⟩
    · exact ⟨.error .other⟩
    · exact hcall.elim
  obtain ⟨more, _, hr⟩ := hl.exists_runs deliver_obeys hanswered
  exact ⟨more, delivered_of_runs hr⟩

/-! ## The loop -/

variable {h tr : BusHist B} {α : Type} {turns : Nat}

/-- A worker has not subscribed yet, or works on what it has received in rounds. -/
theorem worker_rounds {q : BusRun B Outcome} (hl : Leaves (pushWorker senders turns) h q) :
    h = [] ∨ ∃ rx tr past current, h = ⟨.subscribe, rx⟩ :: tr ∧
      Rounds (fun event => onPush (deliver senders event)) tr q past current := by
  rw [pushWorker_eq] at hl
  cases hl with
  | nil => exact .inl rfl
  | @call _ _ rx tr _ hl =>
    obtain ⟨past, current, H⟩ := receive_rounds (quiet_deliver _) hl fun _ => trivial
    exact .inr ⟨rx, tr, past, current, rfl, H⟩

/-- What a worker has done, when `announced` is the mail announced since it has started: for each event
of `done` a `deliver` run from its beginning to its end, and one that is under way. -/
structure Pushed (senders : Senders) (capacity : Nat) (announced : List MailEvent) (h : BusHist B)
    (waiting : Prop) (done current : List (MailEvent × PushHist)) : Prop where
  follows : Follows capacity announced (answers h) waiting
  events : values (answers h) = (done ++ current).map (·.1)
  calls : served h = ((done ++ current).flatMap (·.2)).map onBus
  delivered : ∀ x ∈ done, Delivered senders x.1 x.2
  underWay : ∀ x ∈ current, ∃ more, Delivered senders x.1 (x.2 ++ more)
  one : current.length ≤ 1
  waiting : waiting → current = []
  once : ((done ++ current).map (·.1.id)).Nodup

/-- The rounds of a worker, as runs that do not know of the bus. -/
theorem rounds_onPush {l : List (MailEvent × BusHist B)} {P : MailEvent → PushHist → Prop}
    (hl : ∀ x ∈ l, ∃ tr, x.2 = tr.map onBus ∧ P x.1 tr) :
    ∃ l' : List (MailEvent × PushHist), l'.map (·.1) = l.map (·.1) ∧
      l.flatMap (·.2) = (l'.flatMap (·.2)).map onBus ∧ ∀ x ∈ l', P x.1 x.2 := by
  induction l with
  | nil => exact ⟨[], rfl, rfl, nofun⟩
  | cons x l ih =>
    obtain ⟨⟨tr, htr, hx⟩, hl⟩ := List.forall_mem_cons.mp hl
    obtain ⟨l', hevents, hcalls, hl'⟩ := ih hl
    refine ⟨(x.1, tr) :: l', congrArg (x.1 :: ·) hevents, ?_, List.forall_mem_cons.mpr ⟨hx, hl'⟩⟩
    rw [List.flatMap_cons, List.flatMap_cons, List.map_append, hcalls, htr]

variable {ok : BusConf B → BusMove → Prop} {clock : DateTime} {c : BusConf B}

/-- In every run, a push worker pushes each event announced since it has started, one after the other
and once, except for those that the bus has reported as missed. -/
theorem push_worker (hreach : (busServer app senders B).Reach ok (System.init (.start B clock)) c)
    (i : Nat) (p : Proc BusTask (BusEff.Ans (B := B)) Outcome) (turns : Nat)
    (hp : c.procs[i]? = some p) (htag : p.tag = .pushWorker turns) :
    p.hist = [] ∨ ∃ x ∈ c.log, x.pid = i ∧ x.call = .subscribe ∧ ∃ done current,
      Pushed senders B.capacity (announcedSince c x) p.hist (Waiting c p) done current := by
  have hleaves := hreach.leaves p (List.mem_of_getElem? hp)
  rw [htag] at hleaves
  obtain hnil | ⟨rx, tr, past, current, hhist, H⟩ := worker_rounds hleaves
  · exact .inl hnil
  have hsub : ⟨.subscribe, rx⟩ ∈ p.hist := hhist ▸ List.mem_cons_self
  obtain ⟨x, hx, rfl, -, hev⟩ := hreach.mem_log_of_hist hp hsub
  have hcall : x.call = .subscribe := congrArg Sigma.fst hev
  have hfollows := follows_of_reach hreach hx hcall hp
  refine .inr ⟨x, hx, rfl, hcall, ?_⟩
  obtain ⟨done, hdone, hcalls, hdelivered⟩ := rounds_onPush (P := Delivered senders)
    fun x hx => (runs_onPush (H.runs x hx)).imp fun _ h => ⟨h.1, delivered_of_runs h.2⟩
  obtain ⟨rest, hrest, hcalls', hunder⟩ := rounds_onPush (l := current.toList)
    (P := fun event tr => ∃ more, Delivered senders event (tr ++ more)) fun x hx => by
      obtain ⟨q, f, hl, -, -⟩ := H.leaves x (Option.mem_toList.mp hx)
      obtain ⟨tr', q', htr, -, hl⟩ := leaves_onPush hl
      exact ⟨tr', htr, delivered_of_leaves hl⟩
  have hanswers : answers p.hist = answers tr := by rw [hhist]; rfl
  have hevents : values (answers p.hist) = (done ++ rest).map (·.1) := by
    rw [hanswers, H.values, List.map_append, List.map_append, hdone, hrest]
  refine ⟨done, rest, hfollows, hevents, ?_, hdelivered, hunder, ?_, fun hwait => ?_, ?_⟩
  · have hserved : served p.hist = served tr := by rw [hhist]; rfl
    rw [hserved, H.served, List.flatMap_append, hcalls, hcalls', List.flatMap_append, List.map_append]
  · have hlength := congrArg List.length hrest
    rw [List.length_map, List.length_map] at hlength
    rw [hlength]
    cases current with
    | none => exact Nat.zero_le 1
    | some x => exact Nat.le_refl 1
  · rw [H.current_eq (quiet_deliver _) hwait] at hrest
    exact List.map_eq_nil_iff.mp hrest
  · -- what is announced is among what has been saved, whose ids are distinct
    have hsublist : ((values (answers p.hist)).map (·.id)).Sublist
        (c.world.rest.published.map (·.id)) :=
      (hfollows.order.trans (List.drop_sublist _ _)).map _
    have hnodup := ((bus_conserved hreach).map (·.id)).nodup_iff.mp (bus_distinct hreach)
    rw [List.map_append] at hnodup
    rw [hevents, List.map_map] at hsublist
    exact hsublist.nodup hnodup.of_append_left

/-- A message for the mailbox of `createRandomMoves`. -/
def messageToOwner : Smtp.Reader where
  chunks := ["EHLO a\r\n", "MAIL FROM:<b@c>\r\n", "RCPT TO:<aaaaaaaaaa@example.com>\r\n", "DATA\r\n",
    ".\r\n"].filterMap fun line => if h : Str.asBytes line ≠ [] then some ⟨_, h⟩ else none
  tail := .eof

/-- The owner of a mailbox registers an endpoint, the worker starts, a message arrives and is saved. -/
def arrivalMoves : List BusMove :=
  (createRandomMoves (List.replicate 10 0) ++ subscribeMoves 1 "old" 1).map (fun
    | .spawn t => .spawn (.server t)
    | .act i c => .act i (.base c)
    | .env x => .env x) ++
  [.spawn (.pushWorker 2), .act 2 (.base .answer), .spawn (.server (.smtp 4 false messageToOwner))] ++
  ([.answer, .answer, .answer, .answer, .uuids [], .answer, .space none, .answer, .uuids [2], .answer,
    .answer].map fun c => .act 3 (.base c))

/-- The worker pushes the message; the endpoint is gone, and is deleted. -/
def workerMoves : List BusMove :=
  [.base .answer, .base (.uuids []), .outcome .gone, .base (.uuids [])].map (.act 2)

theorem push_worker_gone : ∃ c : BusConf (ring MailEvent 1024), ∃ p, c.procs[2]? = some p ∧
    (served p.hist).length = 3 ∧ ∃ x ∈ c.log, x.pid = 2 ∧ ∃ done current,
      Pushed ⟨true, false⟩ 1024 (announcedSince c x) p.hist (Waiting c p) done current := by
  have hrun : ((busServer pushApp ⟨true, false⟩ (ring MailEvent 1024)).run (fun _ _ => True)
      (System.init (.start _ 0)) (arrivalMoves ++ workerMoves)).any fun c =>
        (c.procs[2]?).any fun p => (served p.hist).length == 3 && match p.tag with
          | .pushWorker _ => true
          | _ => false := by
    decide +kernel
  obtain ⟨c, hc, hP⟩ := System.Reach.exists_of_run hrun
  obtain ⟨p, hp, hproc⟩ := (Option.any_eq_true ..).mp hP
  obtain ⟨hserved, htag⟩ := Bool.and_eq_true_iff.mp hproc
  split at htag
  · next turns heq =>
    refine ⟨c, p, hp, eq_of_beq hserved, ?_⟩
    obtain hnil | ⟨x, hx, hpid, -, done, current, hpushed⟩ := push_worker hc 2 p turns hp heq
    · rw [hnil] at hserved
      cases hserved
    · exact ⟨x, hx, hpid, done, current, hpushed⟩
  · cases htag

end AnonyMail
