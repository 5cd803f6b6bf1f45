import AnonyMail.EventServer
import AnonyMail.Verify.Announcements

/-! # Receivers of the event bus

Each process has at most one receiver, which it passes on from call to call; so its answers read the
log of the bus from where it has subscribed. A loop over these answers works in rounds: the calls made
for one event are past before the next one is read. -/

namespace AnonyMail

open Calls Prog Broadcast

variable {B : Broadcast MailEvent} {app : AppState} {senders : Senders} {α β : Type}
  {h tr : BusHist B} {ev : Event (BusEff.Ans (B := B))} {rx : B.Rx}

/-! ## What a process has got from the bus -/

def answerOf : Event (BusEff.Ans (B := B)) → Option (Received MailEvent)
  | ⟨.recv _, r⟩ => some r.1
  | ⟨.push _, _⟩ | ⟨.subscribe, _⟩ | ⟨.emit _, _⟩ => none

/-- The receiver after the call. -/
def receiverOf : Event (BusEff.Ans (B := B)) → Option B.Rx
  | ⟨.subscribe, rx⟩ => some rx
  | ⟨.recv _, r⟩ => some r.2
  | ⟨.push _, _⟩ | ⟨.emit _, _⟩ => none

def answers (h : BusHist B) : List (Received MailEvent) := h.filterMap answerOf

/-- The calls that are not calls of the receiver. -/
def served (h : BusHist B) : BusHist B := h.filter fun ev => (receiverOf ev).isNone

def receiver (h : BusHist B) : Option B.Rx := (h.filterMap receiverOf).getLast?

@[simp] theorem answers_nil : answers ([] : BusHist B) = [] := rfl

@[simp] theorem answers_append : answers (h ++ tr) = answers h ++ answers tr :=
  List.filterMap_append

@[simp] theorem answers_cons : answers (ev :: tr) = (answerOf ev).toList ++ answers tr := by
  rw [answers, List.filterMap_cons]
  cases answerOf ev <;> rfl

theorem receiver_append_of_none (htr : ∀ ev ∈ tr, receiverOf ev = none) :
    receiver (h ++ tr) = receiver h := by
  rw [receiver, List.filterMap_append, List.filterMap_eq_nil_iff.mpr htr, List.append_nil, receiver]

theorem receiver_of_quiet (hh : ∀ ev ∈ h, receiverOf ev = none) : receiver h = none := by
  rw [receiver, List.filterMap_eq_nil_iff.mpr hh, List.getLast?_nil]

theorem receiver_concat_of_some (hev : receiverOf ev = some rx) : receiver (h ++ [ev]) = some rx := by
  simp [receiver, hev]

theorem answerOf_of_receiverOf (hev : receiverOf ev = none) : answerOf ev = none := by
  obtain ⟨e, r⟩ := ev
  cases e with
  | push | emit => rfl
  | subscribe | recv => cases hev

theorem answers_of_quiet (htr : ∀ ev ∈ tr, receiverOf ev = none) : answers tr = [] :=
  List.filterMap_eq_nil_iff.mpr fun ev hev => answerOf_of_receiverOf (htr ev hev)

theorem answers_concat_of_none (hev : receiverOf ev = none) : answers (h ++ [ev]) = answers h := by
  rw [answers_append, answers_cons, answerOf_of_receiverOf hev]
  exact List.append_nil _

theorem served_of_quiet (htr : ∀ ev ∈ tr, receiverOf ev = none) : served tr = tr :=
  List.filter_eq_self.mpr fun ev hev => by rw [htr ev hev]; rfl

theorem quiet_of_receiver (hnone : receiver h = none) : ∀ ev ∈ h, receiverOf ev = none := by
  rw [receiver, List.getLast?_eq_none_iff, List.filterMap_eq_nil_iff] at hnone
  exact hnone

/-! ## The calls of the receivers -/

/-- A process subscribes once, and reads with the receiver that it got last. -/
def Receives (h : BusHist B) : BusEff B → Prop
  | .recv rx => receiver h = some rx
  | .subscribe => receiver h = none
  | .push _ | .emit _ => True

/-- The program makes no call of a receiver. -/
inductive Quiet : BusRun B α → Prop
  | ret (a : α) : Quiet (.ret a)
  | push {e : PushEff} {k : e.Ans → BusRun B α} : (∀ r, Quiet (k r)) → Quiet (.call (.push e) k)
  | emit {x : SseEvent} {k : Unit → BusRun B α} : (∀ r, Quiet (k r)) → Quiet (.call (.emit x) k)

theorem quiet_onPush (p : PushRun α) : Quiet (onPush p : BusRun B α) := by
  induction p with
  | ret a => exact .ret a
  | call e k ih => exact .push ih

theorem Quiet.obeys {p : BusRun B α} (hp : Quiet p) (h : BusHist B) :
    Obeys Receives (fun h' _ => receiver h' = receiver h) h p := by
  induction hp generalizing h with
  | ret a => exact rfl
  | push _ ih | emit _ ih =>
    refine ⟨trivial, fun r => (ih r _).mono fun h' a heq => heq.trans ?_⟩
    refine receiver_append_of_none fun ev hev => ?_
    cases List.mem_singleton.mp hev
    rfl

theorem Quiet.leaves {p q : BusRun B α} (hp : Quiet p) (hl : Leaves p tr q) :
    (∀ ev ∈ tr, receiverOf ev = none) ∧ Quiet q := by
  have hnil : ∀ ev ∈ ([] : BusHist B), receiverOf ev = none := fun _ hev => absurd hev List.not_mem_nil
  induction hp generalizing tr with
  | ret a =>
    obtain ⟨rfl, rfl⟩ := leaves_ret.mp hl
    exact ⟨hnil, .ret a⟩
  | push hk ih =>
    cases hl with
    | nil => exact ⟨hnil, .push hk⟩
    | call hl => exact ⟨List.forall_mem_cons.mpr ⟨rfl, (ih _ hl).1⟩, (ih _ hl).2⟩
  | emit hk ih =>
    cases hl with
    | nil => exact ⟨hnil, .emit hk⟩
    | call hl => exact ⟨List.forall_mem_cons.mpr ⟨rfl, (ih _ hl).1⟩, (ih _ hl).2⟩

/-- A program that is quiet is not about to read. -/
theorem Quiet.bind_ne_recv {p : BusRun B α} {f : α → BusRun B β} {k} (hp : Quiet p) (hnot : ¬p.Done) :
    p >>= f ≠ .call (.recv rx) k := by
  cases hp with
  | ret a => exact absurd trivial hnot
  | push | emit => exact nofun

/-- What a handler of events may do. -/
def QuietHandler (handle : MailEvent → BusRun B Unit) : Prop := ∀ event, Quiet (handle event)

theorem quiet_relay (address : String) : QuietHandler (relay address : MailEvent → BusRun B Unit) := by
  intro event
  unfold relay
  split
  · exact .emit fun _ => .ret ()
  · exact .ret ()

theorem quiet_deliver (senders : Senders) :
    QuietHandler (fun event => (onPush (deliver senders event) : BusRun B Unit)) :=
  fun _ => quiet_onPush _

/-- A call of the push worker, on the bus. -/
def onBus (ev : Event PushEff.Ans) : Event (BusEff.Ans (B := B)) := ⟨.push ev.1, ev.2⟩

/-- A program without a receiver runs on the bus as it does elsewhere. -/
theorem leaves_onPush {p : PushRun α} {q : BusRun B α} (hl : Leaves (onPush p) tr q) :
    ∃ tr' q', tr = tr'.map onBus ∧ q = onPush q' ∧ Leaves p tr' q' := by
  induction p generalizing tr with
  | ret a =>
    obtain ⟨rfl, rfl⟩ := leaves_ret.mp hl
    exact ⟨[], .ret a, rfl, rfl, .nil⟩
  | call e k ih =>
    cases hl with
    | nil => exact ⟨[], .call e k, rfl, rfl, .nil⟩
    | call hl =>
      obtain ⟨tr', q', rfl, rfl, hk⟩ := ih _ hl
      exact ⟨⟨e, _⟩ :: tr', q', rfl, rfl, .call hk⟩

theorem runs_onPush {p : PushRun α} {a : α} (hr : Runs (onPush p : BusRun B α) tr a) :
    ∃ tr', tr = tr'.map onBus ∧ Runs p tr' a := by
  obtain ⟨tr', q', rfl, hq, hl⟩ := leaves_onPush hr.leaves
  cases q' with
  | ret b =>
    cases hq
    exact ⟨tr', rfl, hl.runs⟩
  | call e k => cases hq

variable {handle : MailEvent → BusRun B Unit} {n : Nat}

theorem receive_succ : receive handle (n + 1) rx = .call (.recv rx) fun r => match r.1 with
    | .value event => handle event >>= fun _ => receive handle n r.2
    | .lagged _ => receive handle n r.2
    | .closed => .ret () := rfl

theorem eventStream_eq (address : String) (peer : IpAddr) (headers : Api.HeaderMap) (polls : Nat) :
    (eventStream app address peer headers polls : BusRun B Outcome) =
      onPush (onBase (Api.events app address peer headers).run) >>= fun
        | .error e => .ret (.response (.error e))
        | .ok address => .call .subscribe fun rx =>
          receive (relay address) polls rx >>= fun _ => .ret .finished := rfl

theorem pushWorker_eq (turns : Nat) : (pushWorker senders turns : BusRun B Outcome) =
    .call .subscribe fun rx =>
      receive (fun event => onPush (deliver senders event)) turns rx >>= fun _ => .ret .finished := rfl

theorem receives_receive (hq : QuietHandler handle) (hrx : receiver h = some rx) :
    Obeys Receives (fun _ _ => True) h (receive handle n rx) := by
  induction n generalizing h rx with
  | zero => trivial
  | succ n ih =>
    rw [receive_succ]
    refine ⟨hrx, fun r => ?_⟩
    obtain ⟨res, rx'⟩ := r
    have hrx' : receiver (h ++ [⟨.recv rx, (res, rx')⟩]) = some rx' := receiver_concat_of_some rfl
    cases res with
    | value event =>
      refine obeys_bind.mpr (((hq event).obeys _).mono fun h' _ heq => ?_)
      exact ih (heq.trans hrx')
    | lagged k => exact ih hrx'
    | closed => trivial

theorem task_receives (t : BusTask) :
    Obeys Receives (fun _ _ => True) [] (t.prog app senders B) := by
  cases t with
  | server task => exact ((quiet_onPush _).obeys _).mono fun _ _ _ => trivial
  | stream address peer headers polls =>
    rw [BusTask.prog, eventStream_eq]
    refine obeys_bind.mpr (((quiet_onPush _).obeys _).mono fun h' r heq => ?_)
    cases r with
    | error e => trivial
    | ok address =>
      refine ⟨heq, fun rx => obeys_bind.mpr ((receives_receive (quiet_relay _) ?_).mono ?_)⟩
      · exact receiver_concat_of_some rfl
      · exact fun _ _ _ => trivial
  | pushWorker turns =>
    rw [BusTask.prog, pushWorker_eq]
    refine ⟨rfl, fun rx => obeys_bind.mpr ((receives_receive (quiet_deliver _) ?_).mono ?_)⟩
    · exact receiver_concat_of_some rfl
    · exact fun _ _ _ => trivial

/-! ## Rounds -/

/-- What a loop over the answers of a receiver has done: the rounds that are over, and the one that
is not, each an event with the calls made for it. -/
structure Rounds (handle : MailEvent → BusRun B Unit) (tr : BusHist B) (q : BusRun B α)
    (past : List (MailEvent × BusHist B)) (current : Option (MailEvent × BusHist B)) : Prop where
  values : values (answers tr) = (past ++ current.toList).map (·.1)
  served : served tr = (past ++ current.toList).flatMap (·.2)
  runs : ∀ x ∈ past, Runs (handle x.1) x.2 ()
  leaves : ∀ x ∈ current, ∃ (p : BusRun B Unit) (f : Unit → BusRun B α), Leaves (handle x.1) x.2 p ∧
    ¬p.Done ∧ q = p >>= f

variable {q : BusRun B α} {past : List (MailEvent × BusHist B)}
  {current : Option (MailEvent × BusHist B)} {r : Received MailEvent × B.Rx} {event : MailEvent}
  {f : Unit → BusRun B α}

theorem rounds_nil : Rounds handle [] q [] none := ⟨rfl, rfl, nofun, nofun⟩

theorem answers_recv : answers (⟨.recv rx, r⟩ :: tr) = r.1 :: answers tr := rfl

theorem served_recv : served (⟨.recv rx, r⟩ :: tr) = served tr := rfl

/-- An answer for which nothing is done. -/
theorem Rounds.cons (H : Rounds handle tr q past current) (hr : Broadcast.values [r.1] = []) :
    Rounds handle (⟨.recv rx, r⟩ :: tr) q past current := by
  refine ⟨?_, H.served, H.runs, H.leaves⟩
  rw [← H.values, answers_recv, ← List.singleton_append, Broadcast.values, List.filterMap_append]
  exact congrArg (· ++ _) hr

theorem Rounds.cons_over {tr₁ : BusHist B} (H : Rounds handle tr q past current)
    (hq : QuietHandler handle) (hr : r.1 = .value event) (hruns : Runs (handle event) tr₁ ()) :
    Rounds handle (⟨.recv rx, r⟩ :: (tr₁ ++ tr)) q ((event, tr₁) :: past) current := by
  have hquiet := ((hq event).leaves hruns.leaves).1
  refine ⟨?_, ?_, List.forall_mem_cons.mpr ⟨hruns, H.runs⟩, H.leaves⟩
  · rw [answers_recv, answers_append, answers_of_quiet hquiet, hr, List.nil_append]
    exact congrArg (event :: ·) H.values
  · rw [served_recv, AnonyMail.served, List.filter_append]
    exact congrArg₂ (· ++ ·) (served_of_quiet hquiet) H.served

theorem rounds_current {p : BusRun B Unit} (hq : QuietHandler handle) (hr : r.1 = .value event)
    (hl : Leaves (handle event) tr p) (hnot : ¬p.Done) :
    Rounds handle (⟨.recv rx, r⟩ :: tr) (p >>= f) [] (some (event, tr)) := by
  have hquiet := ((hq event).leaves hl).1
  refine ⟨?_, ?_, nofun, fun x hx => ?_⟩
  · rw [answers_recv, answers_of_quiet hquiet, hr]
    rfl
  · rw [served_recv, served_of_quiet hquiet]
    exact (List.append_nil _).symm
  · cases hx
    exact ⟨p, f, hl, hnot, rfl⟩

theorem receive_rounds (hq : QuietHandler handle) (hl : Leaves (receive handle n rx >>= f) tr q)
    (hf : ∀ u, (f u).Done) :
    ∃ past current, Rounds handle tr q past current := by
  have hdone : ∀ {tr}, Leaves (f ()) tr q → tr = [] := by
    intro tr hl
    have hu := hf ()
    generalize f () = p at hl hu
    cases p with
    | ret a => exact (leaves_ret.mp hl).1
    | call e k => exact hu.elim
  induction n generalizing rx tr with
  | zero => exact hdone hl ▸ ⟨[], none, rounds_nil⟩
  | succ n ih =>
    rw [receive_succ] at hl
    cases hl with
    | nil => exact ⟨[], none, rounds_nil⟩
    | @call _ _ r tr _ hl =>
      obtain ⟨res, rx'⟩ := r
      cases res with
      | value event =>
        replace hl : Leaves (handle event >>= fun _ => receive handle n rx' >>= f) tr q := by
          rw [← bind_assoc]
          exact hl
        obtain ⟨p, hp, hnot, rfl⟩ | ⟨u, tr₁, tr₂, rfl, hr, hl⟩ := hl.of_bind
        · exact ⟨[], some (event, tr), rounds_current hq rfl hp hnot⟩
        · obtain ⟨past, current, H⟩ := ih hl
          exact ⟨(event, tr₁) :: past, current, H.cons_over hq rfl hr⟩
      | lagged k =>
        obtain ⟨past, current, H⟩ := ih hl
        exact ⟨past, current, H.cons rfl⟩
      | closed => exact hdone hl ▸ ⟨[], none, rounds_nil.cons rfl⟩

/-! ## Runs -/

def BusEff.announced : BusEff B → List MailEvent
  | .push e => e.announced
  | .subscribe | .recv _ | .emit _ => []

/-- The bus has been sent what has been announced, and each receiver has read it from where it has
subscribed. -/
structure Reading (c : BusConf B) : Prop where
  sent : B.sent c.world.bus = c.world.rest.published
  reads : ∀ p ∈ c.procs, ∀ rx₀, ⟨.subscribe, rx₀⟩ ∈ p.hist → ∃ rx, receiver p.hist = some rx ∧
    B.position rx₀ ≤ c.world.rest.published.length ∧
    Reads B.capacity c.world.rest.published (B.position rx₀) (answers p.hist) (B.position rx)

abbrev BusMove := Move BusTask PushChoice Tick

abbrev BusEntry (B : Broadcast MailEvent) := Entry (BusWorld B) BusTask (BusEff.Ans (B := B))

variable {ok : BusConf B → BusMove → Prop} {clock : DateTime} {c c' : BusConf B} {w w' : BusWorld B}
  {m : BusMove} {e : BusEff B} {ch : PushChoice}

theorem execPush_published {w w' : World} {e : PushEff} {r : e.Ans}
    (hx : execPush app w e ch = some (r, w')) : w'.published = w.published ++ e.announced := by
  cases e with
  | send =>
    cases ch <;> cases hx
    exact (List.append_nil _).symm
  | base e =>
    cases ch with
    | base ch => exact exec_published hx
    | outcome => cases hx

theorem execBus_world {r : e.Ans} (hx : execBus app B w e ch = some (r, w')) :
    w'.rest.published = w.rest.published ++ e.announced ∧
      B.sent w'.bus = B.sent w.bus ++ e.announced := by
  cases e with
  | push e =>
    obtain ⟨⟨r, rest⟩, hpush, heq⟩ := Option.map_eq_some_iff.mp hx
    cases heq
    exact ⟨execPush_published hpush, B.sent_foldl _ _⟩
  | recv rx =>
    obtain ⟨x, -, heq⟩ := Option.map_eq_some_iff.mp hx
    cases heq
    exact ⟨(List.append_nil _).symm, (List.append_nil _).symm⟩
  | subscribe | emit =>
    cases hx
    exact ⟨(List.append_nil _).symm, (List.append_nil _).symm⟩

theorem receiver_of_mem {rx₀ : B.Rx} (hsub : ⟨.subscribe, rx₀⟩ ∈ h) : receiver h ≠ none :=
  fun hnone => nomatch quiet_of_receiver hnone _ hsub

theorem Reading.act {i : Nat} {t : BusTask} {hist : BusHist B} {k : e.Ans → BusRun B Outcome}
    {r : e.Ans} (hread : Reading c) (hi : c.procs[i]? = some ⟨t, hist, .call e k⟩)
    (hcall : Receives hist e) (hx : execBus app B c.world e ch = some (r, w')) {rx₀ : B.Rx}
    (hsub : ⟨.subscribe, rx₀⟩ ∈ hist ++ [⟨e, r⟩]) :
    ∃ rx, receiver (hist ++ [⟨e, r⟩]) = some rx ∧ B.position rx₀ ≤ w'.rest.published.length ∧
      Reads B.capacity w'.rest.published (B.position rx₀) (answers (hist ++ [⟨e, r⟩]))
        (B.position rx) := by
  have hreads := hread.reads _ (List.mem_of_getElem? hi) rx₀
  have hworld := (execBus_world hx).1
  have hlater : ∀ {rx : B.Rx}, B.position rx₀ ≤ c.world.rest.published.length →
      Reads B.capacity c.world.rest.published (B.position rx₀) (answers hist) (B.position rx) →
      B.position rx₀ ≤ w'.rest.published.length ∧
        Reads B.capacity w'.rest.published (B.position rx₀) (answers hist) (B.position rx) := by
    intro rx hle hr
    rw [hworld, List.length_append]
    exact ⟨Nat.le_add_right_of_le hle, hr.append⟩
  obtain hmem | hmem := List.mem_append.mp hsub
  · obtain ⟨rx, hrx, hle, hr⟩ := hreads hmem
    cases e with
    | push | emit =>
      have hsame : receiver (hist ++ [⟨_, r⟩]) = receiver hist :=
        receiver_append_of_none fun ev hev => by cases List.mem_singleton.mp hev; rfl
      refine ⟨rx, hsame.trans hrx, ?_⟩
      rw [answers_concat_of_none rfl]
      exact hlater hle hr
    | subscribe => exact absurd hcall (receiver_of_mem hmem)
    | recv rx' =>
      cases hcall.symm.trans hrx
      obtain ⟨⟨res, rx''⟩, hrecv, heq⟩ := Option.map_eq_some_iff.mp hx
      cases heq
      have hanswer := B.recv_some hrecv
      rw [hread.sent] at hanswer
      refine ⟨rx'', receiver_concat_of_some rfl, hle, ?_⟩
      rw [answers_append]
      exact hr.concat hanswer
  · -- the process has just subscribed
    cases List.mem_singleton.mp hmem
    have hquiet := quiet_of_receiver hcall
    cases hx
    refine ⟨_, receiver_concat_of_some rfl, ?_, ?_⟩
    · rw [B.position_subscribe, hread.sent]
    · rw [answers_append, answers_of_quiet hquiet]
      exact .nil

theorem reading_of_reach
    (hreach : (busServer app senders B).Reach ok (System.init (.start B clock)) c) : Reading c := by
  refine hreach.invariant ⟨B.sent_new, by simp [System.init]⟩ fun {c c' m} hc hread _ hs => ?_
  obtain ⟨t, -, rfl⟩ | ⟨i, ch, t, hist, e, k, r, w', -, hi, hx, rfl⟩ | ⟨x, w', -, hw, rfl⟩ :=
    System.step_cases hs
  · refine ⟨hread.sent, fun p hp rx₀ hsub => ?_⟩
    obtain hp | rfl := System.mem_spawn hp
    · exact hread.reads p hp rx₀ hsub
    · cases hsub
  · have hcall := (hc.lawful task_receives _ (List.mem_of_getElem? hi)).1
    obtain ⟨hpub, hsent⟩ := execBus_world hx
    refine ⟨by rw [hsent, hpub, hread.sent], fun p hp rx₀ hsub => ?_⟩
    obtain hp | rfl := System.mem_act hp
    · obtain ⟨rx, hrx, hle, hr⟩ := hread.reads p hp rx₀ hsub
      dsimp only
      rw [hpub, List.length_append]
      exact ⟨rx, hrx, Nat.le_add_right_of_le hle, hr.append⟩
    · exact hread.act hi hcall hx hsub
  · cases hw
    cases x <;> exact ⟨hread.sent, hread.reads⟩

/-- The process is about to read, and there is nothing to read. -/
def Waiting (c : BusConf B) (p : Proc BusTask (BusEff.Ans (B := B)) Outcome) : Prop :=
  ∃ rx k, p.rest = .call (.recv rx) k ∧ B.recv c.world.bus rx = none

/-- The mail announced since the entry `x`. -/
def announcedSince (c : BusConf B) (x : BusEntry B) : List MailEvent :=
  c.world.rest.published.drop x.before.rest.published.length

/-- A process that has subscribed follows what is announced from then on. -/
theorem follows_of_reach {x : BusEntry B} {p : Proc BusTask (BusEff.Ans (B := B)) Outcome}
    (hreach : (busServer app senders B).Reach ok (System.init (.start B clock)) c) (hx : x ∈ c.log)
    (hcall : x.call = .subscribe) (hp : c.procs[x.pid]? = some p) :
    Follows B.capacity (announcedSince c x) (answers p.hist) (Waiting c p) := by
  have hread := reading_of_reach hreach
  obtain ⟨p', hp', -, hmem⟩ := hreach.mem_hist_of_log x hx
  cases hp.symm.trans hp'
  obtain ⟨l₁, l₂, hlog⟩ := List.append_of_mem hx
  obtain ⟨c₁, c₂, ch, hist, k, h₁, -, hw, -, -, -, hexec, -⟩ := hreach.split_log hlog
  obtain ⟨i, t, before, call, answer, after⟩ := x
  dsimp only at hcall hmem hw hexec
  subst hcall hw
  cases hexec
  have hstart : B.position (B.subscribe c₁.world.bus) = c₁.world.rest.published.length := by
    rw [B.position_subscribe, (reading_of_reach h₁).sent]
  obtain ⟨rx, hrx, hle, hr⟩ := hread.reads p (List.mem_of_getElem? hp) _ hmem
  rw [hstart] at hle hr
  refine hr.follows hle fun hwait => ?_
  obtain ⟨rx', k, hrest, hnone⟩ := hwait
  have hlaw := hreach.lawful task_receives p (List.mem_of_getElem? hp)
  rw [System.Lawful, hrest] at hlaw
  cases hlaw.1.symm.trans hrx
  exact hread.sent ▸ B.recv_none hnone

end AnonyMail
