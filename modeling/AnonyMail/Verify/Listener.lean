import AnonyMail.Smtp.Listener
import AnonyMail.Verify.ConnectionRate
import AnonyMail.Verify.Frames
import AnonyMail.Verify.RejectionLog

/-! # The listener over whole runs

Every permit is free or held by a session, and a session that runs holds one. What the limiter has
been asked is in the log of the listener, with its answers; the steps of the server only let time
pass. -/

namespace AnonyMail.Smtp

open Calls SlidingWindow RateLimiter

variable {app : AppState} {tls : Bool} {cfg : ListenerConfig} {clock : DateTime}
  {c c' : ListenerConf} {s s' : ServerConf} {m : Move Task Choice Tick} {ip : IpAddr}
  {now : Instant} {window max : Nat}

/-! ## One step of the server -/

theorem ended_call {w w' : World} {e : Eff} {k : e.Ans → Run Outcome} {r : e.Ans} {ch : Choice}
    {t : Task} {hist : Hist} (hx : exec app w e ch = some (r, w')) :
    ended ⟨t, hist, .call e k⟩ = false := by
  cases e with
  | panic => cases hx
  | _ => rfl

theorem instant_step (hs : (server app).step s m = some s') :
    s.world.instant ≤ s'.world.instant := by
  obtain ⟨t, -, rfl⟩ | ⟨i, ch, t, hist, e, k, r, w, -, -, hx, rfl⟩ | ⟨x, w, -, hx, rfl⟩ :=
    System.step_cases hs
  · exact le_rfl
  · exact (exec_clocks_eq hx).2.ge
  · cases hx
    cases x with
    | clock t => exact le_rfl
    | instant n => exact Nat.le_add_right ..

/-- A process keeps its place and its request. -/
theorem tag_step {i : Nat} {p : Proc Task Eff.Ans Outcome} (hs : (server app).step s m = some s')
    (hp : s.procs[i]? = some p) : ∃ p', s'.procs[i]? = some p' ∧ p'.tag = p.tag := by
  obtain ⟨t, -, rfl⟩ | ⟨j, ch, t, hist, e, k, r, w, -, hj, -, rfl⟩ | ⟨x, w, -, -, rfl⟩ :=
    System.step_cases hs
  · exact ⟨p, by rw [List.getElem?_append_left (List.getElem?_eq_some_iff.mp hp).1, hp], rfl⟩
  · by_cases hij : j = i
    · subst hij
      cases hj.symm.trans hp
      exact ⟨_, List.getElem?_set_self (List.getElem?_eq_some_iff.mp hj).1, rfl⟩
    · exact ⟨p, by rw [List.getElem?_set_ne hij, hp], rfl⟩
  · exact ⟨p, hp, rfl⟩

/-- A session has been there before a move of another kind, and has run if it runs after it. -/
theorem session_step {i : Nat} {p : Proc Task Eff.Ans Outcome} (hm : Move.isSession m = false)
    (hs : (server app).step s m = some s') (hp : s'.procs[i]? = some p)
    (hsession : isSession p.tag) :
    ∃ p₀, s.procs[i]? = some p₀ ∧ isSession p₀.tag ∧ (ended p = false → ended p₀ = false) := by
  obtain ⟨t, rfl, rfl⟩ | ⟨j, ch, t, hist, e, k, r, w, -, hj, hx, rfl⟩ | ⟨x, w, -, -, rfl⟩ :=
    System.step_cases hs
  · obtain hp | rfl := System.getElem?_spawn hp
    · exact ⟨p, hp, hsession, id⟩
    · cases hm.symm.trans hsession
  · obtain ⟨rfl, rfl⟩ | ⟨-, hp⟩ := System.getElem?_act hp
    · exact ⟨_, hj, hsession, fun _ => ended_call hx⟩
    · exact ⟨p, hp, hsession, id⟩
  · exact ⟨p, hp, hsession, id⟩

namespace ListenerConf

/-! ## One step of the listener -/

theorem accept_cases (h : c.accept ip = some c') : c.listener.turn = .accept ∧
    c' = { c with listener := { c.listener with
      limiter := (c.listener.limiter.checkAt ip c.rest.world.instant).2
      turn := if (c.listener.limiter.checkAt ip c.rest.world.instant).1 then
        .tryAcquire ip c.rest.world.instant else .noteRejection ip c.rest.world.instant } } := by
  unfold accept at h
  split at h
  · next hturn => exact ⟨hturn, by cases h; rfl⟩
  · cases h

theorem noteRejection_cases (h : c.noteRejection = some c') :
    ∃ ip time, c.listener.turn = .noteRejection ip time ∧
      c' = { c with
        listener := { c.listener with
          limiter := (c.listener.limiter.noteRejectionAt ip c.rest.world.instant).2
          turn := .accept }
        log := c.log ++ [⟨ip, time, .limited c.rest.world.instant
          (c.listener.limiter.noteRejectionAt ip c.rest.world.instant).1⟩] } := by
  unfold noteRejection at h
  split at h
  · next ip time hturn => exact ⟨ip, time, hturn, by cases h; rfl⟩
  · cases h

/-- The loop goes on with a refusal if there is no permit, else with a session. -/
theorem tryAcquire_cases {turns : Nat} {input : Reader}
    (h : c.tryAcquire app tls turns input = some c') :
    ∃ ip time, c.listener.turn = .tryAcquire ip time ∧
      ((c.listener.semaphore = 0 ∧
        c' = { c with
          listener := { c.listener with turn := .accept }, log := c.log ++ [⟨ip, time, .busy⟩] }) ∨
      ∃ free, c.listener.semaphore = free + 1 ∧
        c' = ⟨{ c.rest with procs := c.rest.procs ++
            [⟨.smtp turns tls input, [], (Task.smtp turns tls input).prog app⟩] },
          { c.listener with semaphore := free, turn := .accept },
          c.permits ++ [c.rest.procs.length],
          c.log ++ [⟨ip, time, .session c.rest.procs.length⟩]⟩) := by
  unfold tryAcquire at h
  split at h
  · next ip time hturn =>
    refine ⟨ip, time, hturn, ?_⟩
    split at h
    · next hfree => exact .inl ⟨hfree, by cases h; rfl⟩
    · next free hfree => exact .inr ⟨free, hfree, by cases h; rfl⟩
  · cases h

theorem release_cases {pid : Nat} (h : c.release pid = some c') :
    pid ∈ c.permits ∧ (∃ p, c.rest.procs[pid]? = some p ∧ ended p) ∧
      c' = { c with
        listener := { c.listener with semaphore := c.listener.semaphore + 1 }
        permits := c.permits.erase pid } := by
  obtain ⟨⟨hpid, hended⟩, heq⟩ := Option.ite_none_right_eq_some.mp h
  exact ⟨hpid, (Option.any_eq_true ..).mp hended, (Option.some.inj heq).symm⟩

theorem server_cases (h : c.step app tls (.server m) = some c') :
    Move.isSession m = false ∧
      ∃ s', (AnonyMail.server app).step c.rest m = some s' ∧ c' = { c with rest := s' } := by
  obtain ⟨hm, hs⟩ := Option.ite_none_left_eq_some.mp h
  obtain ⟨s', hs, heq⟩ := Option.map_eq_some_iff.mp hs
  exact ⟨Bool.eq_false_iff.mpr hm, s', hs, heq.symm⟩

/-! ## Permits -/

/-- A session that has neither returned nor panicked. -/
def Running (c : ListenerConf) (i : Nat) : Prop :=
  ∃ p, c.rest.procs[i]? = some p ∧ isSession p.tag ∧ ended p = false

/-- A permit is free or held by a session, and the sessions that run hold one. -/
structure Permits (cfg : ListenerConfig) (c : ListenerConf) : Prop where
  total : c.listener.semaphore + c.permits.length = cfg.maxConnections
  nodup : c.permits.Nodup
  owned : ∀ i ∈ c.permits, ∃ p, c.rest.procs[i]? = some p ∧ isSession p.tag
  running : ∀ i, c.Running i → i ∈ c.permits

theorem Permits.lt (H : Permits cfg c) {i : Nat} (hi : i ∈ c.permits) :
    i < c.rest.procs.length := by
  obtain ⟨p, hp, -⟩ := H.owned i hi
  exact (List.getElem?_eq_some_iff.mp hp).1

theorem Permits.session {p : Proc Task Eff.Ans Outcome} {free : Nat} (H : Permits cfg c)
    (hfree : c.listener.semaphore = free + 1) (hp : isSession p.tag)
    (hprocs : c'.rest.procs = c.rest.procs ++ [p]) (hsem : c'.listener.semaphore = free)
    (hpermits : c'.permits = c.permits ++ [c.rest.procs.length]) : Permits cfg c' where
  total := by
    have htotal := H.total
    rw [hsem, hpermits, List.length_append, List.length_singleton]
    omega
  nodup := by
    rw [hpermits]
    refine List.nodup_append.mpr ⟨H.nodup, List.nodup_singleton _, fun i hi j hj => ?_⟩
    exact List.mem_singleton.mp hj ▸ (H.lt hi).ne
  owned i hi := by
    rw [hpermits] at hi
    rw [hprocs]
    rcases List.mem_append.mp hi with hi | hi
    · rw [List.getElem?_append_left (H.lt hi)]
      exact H.owned i hi
    · cases List.mem_singleton.mp hi
      exact ⟨p, List.getElem?_concat_length, hp⟩
  running i := by
    rintro ⟨p', hp', hsession, hrun⟩
    rw [hprocs] at hp'
    rw [hpermits]
    rcases Nat.lt_or_ge i c.rest.procs.length with hlt | hge
    · rw [List.getElem?_append_left hlt] at hp'
      exact List.mem_append_left _ (H.running i ⟨p', hp', hsession, hrun⟩)
    · have hlt := (List.getElem?_eq_some_iff.mp hp').1
      rw [List.length_append, List.length_singleton] at hlt
      exact List.mem_append_right _ (List.mem_singleton.mpr (by omega))

theorem Permits.release {pid : Nat} {p : Proc Task Eff.Ans Outcome} (H : Permits cfg c)
    (hpid : pid ∈ c.permits) (hp : c.rest.procs[pid]? = some p) (hended : ended p)
    (hprocs : c'.rest = c.rest) (hsem : c'.listener.semaphore = c.listener.semaphore + 1)
    (hpermits : c'.permits = c.permits.erase pid) : Permits cfg c' where
  total := by
    have htotal := H.total
    have hpos := List.length_pos_of_mem hpid
    rw [hsem, hpermits, List.length_erase_of_mem hpid]
    omega
  nodup := hpermits ▸ H.nodup.erase pid
  owned i hi := by
    rw [hprocs]
    exact H.owned i (List.mem_of_mem_erase (hpermits ▸ hi))
  running i := by
    rintro ⟨p', hp', hsession, hrun⟩
    rw [hprocs] at hp'
    rw [hpermits]
    have hne : i ≠ pid := by
      rintro rfl
      cases hp.symm.trans hp'
      cases hended.symm.trans hrun
    exact (List.mem_erase_of_ne hne).mpr (H.running i ⟨p', hp', hsession, hrun⟩)

theorem Permits.server (H : Permits cfg c) (hm : Move.isSession m = false)
    (hs : (server app).step c.rest m = some s') : Permits cfg { c with rest := s' } where
  total := H.total
  nodup := H.nodup
  owned i hi := by
    obtain ⟨p, hp, hsession⟩ := H.owned i hi
    obtain ⟨p', hp', htag⟩ := tag_step hs hp
    exact ⟨p', hp', htag ▸ hsession⟩
  running i := by
    rintro ⟨p, hp, hsession, hrun⟩
    obtain ⟨p₀, hp₀, hsession₀, hkeep⟩ := session_step hm hs hp hsession
    exact H.running i ⟨p₀, hp₀, hsession₀, hkeep hrun⟩

theorem permits_of_reach (h : Reach app tls cfg clock c) : Permits cfg c := by
  induction h with
  | start => exact ⟨rfl, List.nodup_nil, nofun, fun _ ⟨_, hp, _⟩ => nomatch hp⟩
  | @step c c' m _ hs ih =>
    cases m with
    | accept ip =>
      obtain ⟨-, rfl⟩ := accept_cases hs
      exact ⟨ih.total, ih.nodup, ih.owned, ih.running⟩
    | noteRejection =>
      obtain ⟨ip, time, -, rfl⟩ := noteRejection_cases hs
      exact ⟨ih.total, ih.nodup, ih.owned, ih.running⟩
    | tryAcquire turns input =>
      obtain ⟨ip, time, -, ⟨-, rfl⟩ | ⟨free, hfree, rfl⟩⟩ := tryAcquire_cases hs
      · exact ⟨ih.total, ih.nodup, ih.owned, ih.running⟩
      · exact ih.session hfree rfl rfl rfl rfl
    | release pid =>
      obtain ⟨hpid, ⟨p, hp, hended⟩, rfl⟩ := release_cases hs
      exact ih.release hpid hp hended rfl rfl rfl
    | server m =>
      obtain ⟨hm, s', hserver, rfl⟩ := server_cases hs
      exact ih.server hm hserver

/-- No more sessions run than there are permits. -/
theorem Permits.length_le (H : Permits cfg c) {pids : List Nat} (hnodup : pids.Nodup)
    (hrun : ∀ i ∈ pids, c.Running i) : pids.length ≤ cfg.maxConnections := by
  have hsub : pids ⊆ c.permits := fun i hi => H.running i (hrun i hi)
  have hlen := (List.subperm_of_subset hnodup hsub).length_le
  have htotal := H.total
  omega

/-! ## The log -/

def keys (log : List Connection) : List Attempt := log.map fun x => (x.ip, x.time)

end ListenerConf

/-- The connection has passed the check of the limiter. -/
def Connection.passes (x : Connection) : Bool :=
  match x.admission with
  | .limited .. => false
  | _ => true

theorem Connection.refused_iff {x : Connection} :
    x.admission.reject = some tooManyConnections ↔ x.passes = false := by
  rw [passes]
  cases x.admission with
  | limited => exact ⟨fun _ => rfl, fun _ => rfl⟩
  | busy => decide
  | session => exact ⟨nofun, nofun⟩

def Connection.report (x : Connection) : Option Report :=
  match x.admission with
  | .limited noted count => some ⟨x.ip, noted, count⟩
  | _ => none

/-- The connection that the loop is at, and whether it has passed the check. -/
def ListenerTurn.checked : ListenerTurn → Option (Attempt × Bool)
  | .accept => none
  | .noteRejection ip time => some ((ip, time), false)
  | .tryAcquire ip time => some ((ip, time), true)

namespace ListenerConf

def reports (log : List Connection) : List Report := log.filterMap Connection.report

def attempts (c : ListenerConf) : List Attempt :=
  keys c.log ++ (c.listener.turn.checked.map (·.1)).toList

theorem keys_concat {log : List Connection} {x : Connection} :
    keys (log ++ [x]) = keys log ++ [(x.ip, x.time)] := List.map_append

/-- The connections have been let through as the limiter lets them through when it is asked for one
after the other. -/
def Judged (window max : Nat) (log : List Connection) : Prop :=
  ∀ before x rest, log = before ++ x :: rest →
    ((after window max (keys before)).checkAt x.ip x.time).1 = x.passes

theorem Judged.concat {log : List Connection} {x : Connection} (H : Judged window max log)
    (hx : ((after window max (keys log)).checkAt x.ip x.time).1 = x.passes) :
    Judged window max (log ++ [x]) := by
  intro before y rest h
  obtain ⟨rfl, rfl⟩ | ⟨rest, h, -⟩ := concat_eq_split h
  · exact hx
  · exact H before y rest h

theorem Judged.accepted {log : List Connection} (H : Judged window max log) :
    accepted window max (keys log) = keys (log.filter Connection.passes) := by
  induction log using List.reverseRecOn with
  | nil => rfl
  | append_singleton log x ih =>
    have hlog := ih fun before y rest h => H before y (rest ++ [x]) (by simp [h])
    rw [keys_concat, accepted_concat, H log x [] rfl, hlog, List.filter_append, keys, keys,
      List.map_append, List.filter_singleton]
    cases x.passes <;> simp

/-- The limiter has been asked for the connections of the log and for the one the loop is at. -/
structure Checked (window max : Nat) (c : ListenerConf) : Prop where
  window_eq : c.listener.limiter.window = window
  max_eq : c.listener.limiter.max = max
  hits : c.listener.limiter.hits = (after window max c.attempts).hits
  sorted : c.attempts.Pairwise fun a b => a.2 ≤ b.2
  past : ∀ a ∈ c.attempts, a.2 ≤ c.rest.world.instant
  judged : Judged window max c.log
  turn : ∀ a b, c.listener.turn.checked = some (a, b) →
    ((after window max (keys c.log)).checkAt a.1 a.2).1 = b

/-- The answer to a check, and the hits that it leaves, depend on these alone. -/
theorem checkAt_congr {l l' : RateLimiter} (hwindow : l.window = l'.window) (hmax : l.max = l'.max)
    (hhits : l.hits = l'.hits) : (l.checkAt ip now).1 = (l'.checkAt ip now).1 ∧
      (l.checkAt ip now).2.hits = (l'.checkAt ip now).2.hits := by
  obtain ⟨window, max, hits, rejections⟩ := l
  obtain ⟨window', max', hits', rejections'⟩ := l'
  cases hwindow
  cases hmax
  cases hhits
  have hsweep : sweepHits ⟨window, max, hits, rejections⟩ now =
      sweepHits ⟨window, max, hits, rejections'⟩ now := rfl
  simp only [checkAt, hsweep]
  split <;> exact ⟨rfl, rfl⟩

theorem checkAt_rejections {l : RateLimiter} :
    (l.checkAt ip now).2.rejections = l.rejections := by
  simp only [checkAt]
  split <;> rfl

theorem Checked.accept (H : Checked window max c) (h : c.accept ip = some c') :
    Checked window max c' := by
  obtain ⟨hturn, rfl⟩ := accept_cases h
  have hattempts : c.attempts = keys c.log := by simp [attempts, hturn, ListenerTurn.checked]
  have hhits := H.hits
  have hsorted := H.sorted
  have hpast := H.past
  rw [hattempts] at hhits hsorted hpast
  obtain ⟨hanswer, htable⟩ := @checkAt_congr ip c.rest.world.instant c.listener.limiter
    (after window max (keys c.log)) (H.window_eq.trans after_window.symm)
    (H.max_eq.trans after_max.symm) hhits
  have hchecked : (if (c.listener.limiter.checkAt ip c.rest.world.instant).1 then
      ListenerTurn.tryAcquire ip c.rest.world.instant else
      .noteRejection ip c.rest.world.instant).checked = some ((ip, c.rest.world.instant),
        (c.listener.limiter.checkAt ip c.rest.world.instant).1) := by
    split
    · next h => rw [h]; rfl
    · next h => rw [Bool.eq_false_iff.mpr h]; rfl
  have hnew : ∀ l, attempts { c with listener := { c.listener with
      limiter := l, turn := if (c.listener.limiter.checkAt ip c.rest.world.instant).1 then
        .tryAcquire ip c.rest.world.instant else .noteRejection ip c.rest.world.instant } } =
      keys c.log ++ [(ip, c.rest.world.instant)] := by
    intro l
    simp only [attempts, hchecked]
    rfl
  refine ⟨checkAt_window.trans H.window_eq, checkAt_max.trans H.max_eq, ?_, ?_, ?_, H.judged, ?_⟩
  · rw [hnew, after_concat]
    exact htable
  · rw [hnew]
    refine List.pairwise_append.mpr ⟨hsorted, List.pairwise_singleton .., fun a ha b hb => ?_⟩
    cases List.mem_singleton.mp hb
    exact hpast a ha
  · rw [hnew]
    intro a ha
    rcases List.mem_append.mp ha with ha | ha
    · exact hpast a ha
    · exact (List.mem_singleton.mp ha) ▸ le_rfl
  · intro a b hab
    cases hchecked.symm.trans hab
    exact hanswer.symm

/-- The turn ends, and the connection is put down in the log. -/
theorem Checked.conclude {x : Connection} (H : Checked window max c)
    (hturn : c.listener.turn.checked = some ((x.ip, x.time), x.passes))
    (hlog : c'.log = c.log ++ [x]) (hnext : c'.listener.turn = .accept)
    (hwindow : c'.listener.limiter.window = c.listener.limiter.window)
    (hmax : c'.listener.limiter.max = c.listener.limiter.max)
    (hhits : c'.listener.limiter.hits = c.listener.limiter.hits)
    (hinstant : c'.rest.world.instant = c.rest.world.instant) : Checked window max c' := by
  have hattempts : c'.attempts = c.attempts := by
    rw [attempts, attempts, hlog, keys_concat, hnext, hturn]
    simp [ListenerTurn.checked]
  refine ⟨hwindow.trans H.window_eq, hmax.trans H.max_eq, ?_, ?_, ?_, ?_, ?_⟩
  · rw [hhits, H.hits, hattempts]
  · rw [hattempts]
    exact H.sorted
  · rw [hattempts, hinstant]
    exact H.past
  · rw [hlog]
    exact H.judged.concat (H.turn _ _ hturn)
  · intro a b hab
    rw [hnext] at hab
    cases hab

/-- Time passes. -/
theorem Checked.later (H : Checked window max c) (hlog : c'.log = c.log)
    (hturn : c'.listener.turn = c.listener.turn)
    (hlimiter : c'.listener.limiter = c.listener.limiter)
    (hinstant : c.rest.world.instant ≤ c'.rest.world.instant) : Checked window max c' := by
  have hattempts : c'.attempts = c.attempts := by rw [attempts, attempts, hlog, hturn]
  refine ⟨hlimiter ▸ H.window_eq, hlimiter ▸ H.max_eq, ?_, ?_, ?_, hlog ▸ H.judged, ?_⟩
  · rw [hlimiter, hattempts]
    exact H.hits
  · rw [hattempts]
    exact H.sorted
  · rw [hattempts]
    exact fun a ha => le_trans (H.past a ha) hinstant
  · rw [hturn, hlog]
    exact H.turn

/-! ## The rejections that are noted -/

def rejections (log : List Connection) : List Attempt := (reports log).map fun x => (x.ip, x.time)

structure Noted (window max : Nat) (c : ListenerConf) : Prop where
  window_eq : c.listener.limiter.window = window
  table : c.listener.limiter.rejections = (noted window max (rejections c.log)).1.rejections
  answers : (noted window max (rejections c.log)).2 = reports c.log
  sorted : (rejections c.log).Pairwise fun a b => a.2 ≤ b.2
  past : ∀ a ∈ rejections c.log, a.2 ≤ c.rest.world.instant

theorem noteRejectionAt_congr {l l' : RateLimiter} (hwindow : l.window = l'.window)
    (htable : l.rejections = l'.rejections) :
    (l.noteRejectionAt ip now).1 = (l'.noteRejectionAt ip now).1 ∧
      (l.noteRejectionAt ip now).2.rejections = (l'.noteRejectionAt ip now).2.rejections := by
  obtain ⟨window, max, hits, rejections⟩ := l
  obtain ⟨window', max', hits', rejections'⟩ := l'
  cases hwindow
  cases htable
  have hsweep : sweepRejections ⟨window, max, hits, rejections⟩ now =
      sweepRejections ⟨window, max', hits', rejections⟩ now := rfl
  simp only [noteRejectionAt, hsweep]
  split
  · exact ⟨rfl, rfl⟩
  · split <;> exact ⟨rfl, rfl⟩

theorem noteRejectionAt_frame (l : RateLimiter) (ip : IpAddr) (now : Instant) :
    ∃ table, (l.noteRejectionAt ip now).2 = { l with rejections := table } := by
  obtain ⟨-, h⟩ | ⟨r, -, -, h⟩ | ⟨r, -, -, h⟩ := noteRejectionAt_cases l ip now
  all_goals exact ⟨_, congrArg Prod.snd h⟩

theorem Noted.note {x : Connection} {count : Option Nat} (H : Noted window max c)
    (hx : x.admission = .limited c.rest.world.instant count)
    (hnote : (c.listener.limiter.noteRejectionAt x.ip c.rest.world.instant).1 = count)
    (hlog : c'.log = c.log ++ [x]) (hrest : c'.rest = c.rest)
    (hlimiter : c'.listener.limiter =
      (c.listener.limiter.noteRejectionAt x.ip c.rest.world.instant).2) :
    Noted window max c' := by
  obtain ⟨hanswer, htable⟩ := @noteRejectionAt_congr x.ip c.rest.world.instant c.listener.limiter
    (noted window max (rejections c.log)).1 (H.window_eq.trans noted_window.symm) H.table
  have hreports : reports c'.log = reports c.log ++ [⟨x.ip, c.rest.world.instant, count⟩] := by
    rw [hlog, reports, List.filterMap_append]
    simp [reports, Connection.report, hx]
  have hrejections : rejections c'.log = rejections c.log ++ [(x.ip, c.rest.world.instant)] := by
    rw [rejections, hreports, List.map_append]
    rfl
  refine ⟨?_, ?_, ?_, ?_, ?_⟩
  · rw [hlimiter, noteRejectionAt_window, H.window_eq]
  · rw [hlimiter, hrejections, noted_concat]
    exact htable
  · rw [hreports, hrejections, noted_concat, H.answers, ← hanswer, hnote]
  · rw [hrejections]
    refine List.pairwise_append.mpr ⟨H.sorted, List.pairwise_singleton .., fun a ha b hb => ?_⟩
    cases List.mem_singleton.mp hb
    exact H.past a ha
  · rw [hrejections, hrest]
    intro a ha
    rcases List.mem_append.mp ha with ha | ha
    · exact H.past a ha
    · exact (List.mem_singleton.mp ha) ▸ le_rfl

theorem Noted.later (H : Noted window max c) (hreports : reports c'.log = reports c.log)
    (hwindow : c'.listener.limiter.window = c.listener.limiter.window)
    (htable : c'.listener.limiter.rejections = c.listener.limiter.rejections)
    (hinstant : c.rest.world.instant ≤ c'.rest.world.instant) : Noted window max c' := by
  have hrejections : rejections c'.log = rejections c.log := by
    rw [rejections, rejections, hreports]
  refine ⟨hwindow.trans H.window_eq, ?_, ?_, ?_, ?_⟩
  · rw [htable, hrejections]
    exact H.table
  · rw [hreports, hrejections]
    exact H.answers
  · rw [hrejections]
    exact H.sorted
  · rw [hrejections]
    exact fun a ha => le_trans (H.past a ha) hinstant

theorem reports_concat_of_none {log : List Connection} {x : Connection}
    (hx : x.report = none) : reports (log ++ [x]) = reports log := by
  rw [reports, List.filterMap_append]
  simp [reports, hx]

theorem limiter_of_reach (h : Reach app tls cfg clock c) :
    Checked connectionWindow cfg.perIpConnectionsPerMin c ∧
      Noted connectionWindow cfg.perIpConnectionsPerMin c := by
  induction h with
  | start => exact ⟨⟨rfl, rfl, rfl, .nil, nofun, fun _ _ _ h => by simp [start] at h, nofun⟩,
      ⟨rfl, rfl, rfl, .nil, nofun⟩⟩
  | @step c c' m _ hs ih =>
    obtain ⟨hchecked, hnoted⟩ := ih
    cases m with
    | accept ip =>
      refine ⟨hchecked.accept hs, ?_⟩
      obtain ⟨-, rfl⟩ := accept_cases hs
      exact hnoted.later rfl checkAt_window checkAt_rejections le_rfl
    | noteRejection =>
      obtain ⟨ip, time, hturn, rfl⟩ := noteRejection_cases hs
      obtain ⟨table, hframe⟩ :=
        noteRejectionAt_frame c.listener.limiter ip c.rest.world.instant
      refine ⟨hchecked.conclude ?_ rfl rfl ?_ ?_ ?_ rfl, hnoted.note rfl rfl rfl rfl rfl⟩
      · rw [hturn]
        rfl
      · exact (congrArg RateLimiter.window hframe :)
      · exact (congrArg RateLimiter.max hframe :)
      · exact (congrArg RateLimiter.hits hframe :)
    | tryAcquire turns input =>
      obtain ⟨ip, time, hturn, ⟨-, rfl⟩ | ⟨free, -, rfl⟩⟩ := tryAcquire_cases hs
      all_goals
        refine ⟨hchecked.conclude ?_ rfl rfl rfl rfl rfl rfl,
          hnoted.later (reports_concat_of_none rfl) rfl rfl le_rfl⟩
        rw [hturn]
        rfl
    | release pid =>
      obtain ⟨-, -, rfl⟩ := release_cases hs
      exact ⟨hchecked.later rfl rfl rfl le_rfl, hnoted.later rfl rfl rfl le_rfl⟩
    | server m =>
      obtain ⟨-, s', hserver, rfl⟩ := server_cases hs
      have hinstant := instant_step hserver
      exact ⟨hchecked.later rfl rfl rfl hinstant, hnoted.later rfl rfl rfl hinstant⟩

/-! ## The server behind the listener -/

/-- The sessions of the server are those that the log has let in. -/
theorem admitted_of_reach (h : Reach app tls cfg clock c) {i : Nat}
    {p : Proc Task Eff.Ans Outcome} (hp : c.rest.procs[i]? = some p) (hsession : isSession p.tag) :
    ∃ x ∈ c.log, x.admission = .session i := by
  induction h generalizing p with
  | start => cases hp
  | @step c c' m _ hs ih =>
    cases m with
    | accept ip =>
      obtain ⟨-, rfl⟩ := accept_cases hs
      exact ih hp hsession
    | noteRejection =>
      obtain ⟨ip, time, -, rfl⟩ := noteRejection_cases hs
      obtain ⟨x, hx, hadmission⟩ := ih hp hsession
      exact ⟨x, List.mem_append_left _ hx, hadmission⟩
    | tryAcquire turns input =>
      obtain ⟨ip, time, -, ⟨-, rfl⟩ | ⟨free, -, rfl⟩⟩ := tryAcquire_cases hs
      · obtain ⟨x, hx, hadmission⟩ := ih hp hsession
        exact ⟨x, List.mem_append_left _ hx, hadmission⟩
      · rcases Nat.lt_or_ge i c.rest.procs.length with hlt | hge
        · obtain ⟨x, hx, hadmission⟩ := ih ((List.getElem?_append_left hlt).symm.trans hp) hsession
          exact ⟨x, List.mem_append_left _ hx, hadmission⟩
        · have hlt := (List.getElem?_eq_some_iff.mp hp).1
          rw [List.length_append, List.length_singleton] at hlt
          obtain rfl : i = c.rest.procs.length := by omega
          exact ⟨_, List.mem_append_right _ (List.mem_singleton_self _), rfl⟩
    | release pid =>
      obtain ⟨-, -, rfl⟩ := release_cases hs
      exact ih hp hsession
    | server m =>
      obtain ⟨hm, s', hserver, rfl⟩ := server_cases hs
      obtain ⟨p₀, hp₀, hsession₀, -⟩ := session_step hm hserver hp hsession
      exact ih hp₀ hsession₀

/-- What the listener does to the server, is to start a session. -/
theorem server_of_reach (h : Reach app tls cfg clock c) :
    (AnonyMail.server app).Reach (fun _ _ => True) (System.init (.start clock)) c.rest := by
  induction h with
  | start => exact .refl
  | @step c c' m _ hs ih =>
    cases m with
    | accept ip =>
      obtain ⟨-, rfl⟩ := accept_cases hs
      exact ih
    | noteRejection =>
      obtain ⟨ip, time, -, rfl⟩ := noteRejection_cases hs
      exact ih
    | tryAcquire turns input =>
      obtain ⟨ip, time, -, ⟨-, rfl⟩ | ⟨free, -, rfl⟩⟩ := tryAcquire_cases hs
      · exact ih
      · exact ih.tail (m := .spawn (.smtp turns tls input)) trivial rfl
    | release pid =>
      obtain ⟨-, -, rfl⟩ := release_cases hs
      exact ih
    | server m =>
      obtain ⟨-, s', hserver, rfl⟩ := server_cases hs
      exact ih.tail trivial hserver

/-! ## What the listener promises -/

/-- The permits, the limits of the addresses and the warnings. -/
structure Hygiene (app : AppState) (tls : Bool) (cfg : ListenerConfig) (c : ListenerConf) :
    Prop where
  permits : c.listener.semaphore + c.permits.length = cfg.maxConnections
  sessions : ∀ pids : List Nat, pids.Nodup → (∀ i ∈ pids, c.Running i) →
    pids.length ≤ cfg.maxConnections
  admitted : ∀ i p, c.rest.procs[i]? = some p → isSession p.tag →
    ∃ x ∈ c.log, x.admission = .session i
  limited : ∀ before x rest, c.log = before ++ x :: rest →
    (x.admission.reject = some tooManyConnections ↔
      (before.filter fun y => y.passes ∧ y.ip = x.ip ∧ x.time - y.time < connectionWindow).length =
        cfg.perIpConnectionsPerMin)
  rate : ∀ ip now, (c.log.filter fun x =>
    x.passes ∧ x.ip = ip ∧ x.time ≤ now ∧ now - x.time < connectionWindow).length ≤
      cfg.perIpConnectionsPerMin
  busy : ∀ ip time, c.listener.turn = .tryAcquire ip time → ∀ turns input,
    ∃ c', c.tryAcquire app tls turns input = some c' ∧
      ((c.permits.length = cfg.maxConnections ∧ c'.rest = c.rest ∧
        c'.log = c.log ++ [⟨ip, time, .busy⟩]) ∨
      (c.permits.length < cfg.maxConnections ∧ c'.Running c.rest.procs.length ∧
        c'.log = c.log ++ [⟨ip, time, .session c.rest.procs.length⟩]))
  warnings : (reports c.log).Pairwise fun x y =>
    x.ip = y.ip → x.count.isSome → y.count.isSome → connectionWindow ≤ y.time - x.time

theorem Checked.sorted_keys (H : Checked window max c) :
    (keys c.log).Pairwise fun a b => a.2 ≤ b.2 := (List.pairwise_append.mp H.sorted).1

theorem length_filter_keys {log : List Connection} {p : Attempt → Bool} :
    ((keys (log.filter Connection.passes)).filter p).length =
      (log.filter fun x => x.passes ∧ p (x.ip, x.time)).length := by
  rw [keys, List.filter_map, List.length_map, List.filter_filter]
  simp only [Function.comp_def, Bool.decide_and, Bool.decide_eq_true, Bool.and_comm]

/-- A connection is over the limit exactly if its address has used it up within the window. -/
theorem Checked.limited_iff {before rest : List Connection} {x : Connection}
    (H : Checked window max c) (h : c.log = before ++ x :: rest) : x.passes = false ↔
      (before.filter fun y => y.passes ∧ y.ip = x.ip ∧ x.time - y.time < window).length = max := by
  have hkeys : keys c.log = keys before ++ (x.ip, x.time) :: keys rest := by
    rw [h, keys, List.map_append]
    rfl
  have hsorted := H.sorted_keys
  rw [hkeys] at hsorted
  obtain ⟨hbefore, -, hcross⟩ := List.pairwise_append.mp hsorted
  have hpast : ∀ a ∈ keys before, a.2 ≤ x.time := fun a ha => hcross a ha _ List.mem_cons_self
  have hjudged : Judged window max before := fun l y rest' hl =>
    H.judged l y (rest' ++ x :: rest) (by rw [h, hl, List.append_assoc, List.cons_append])
  rw [← H.judged before x rest h, rejected_iff hbefore hpast, hjudged.accepted, length_filter_keys]
  simp only [Bool.decide_and, Bool.decide_eq_true]

theorem Checked.length_le (H : Checked window max c) (ip : IpAddr) (now : Instant) :
    (c.log.filter fun x => x.passes ∧ x.ip = ip ∧ x.time ≤ now ∧ now - x.time < window).length ≤
      max := by
  have hle := @length_accepted_le window max _ H.sorted_keys ip now
  rw [H.judged.accepted, length_filter_keys] at hle
  simpa only [Bool.decide_and, Bool.decide_eq_true] using hle

theorem Noted.spaced (H : Noted window max c) : (reports c.log).Pairwise fun x y =>
    x.ip = y.ip → x.count.isSome → y.count.isSome → window ≤ y.time - x.time := by
  rw [← H.answers]
  exact spaced_noted H.sorted

/-- A connection that has passed the check gets a session if there is a permit that no session
holds, and is refused as busy else. -/
theorem Permits.tryAcquire {time : Instant} (H : Permits cfg c)
    (hturn : c.listener.turn = .tryAcquire ip time) (turns : Nat) (input : Reader) :
    ∃ c', c.tryAcquire app tls turns input = some c' ∧
      ((c.permits.length = cfg.maxConnections ∧ c'.rest = c.rest ∧
        c'.log = c.log ++ [⟨ip, time, .busy⟩]) ∨
      (c.permits.length < cfg.maxConnections ∧ c'.Running c.rest.procs.length ∧
        c'.log = c.log ++ [⟨ip, time, .session c.rest.procs.length⟩])) := by
  have htotal := H.total
  have hsome : ∃ c', c.tryAcquire app tls turns input = some c' := by
    rw [ListenerConf.tryAcquire, hturn]
    cases c.listener.semaphore <;> exact ⟨_, rfl⟩
  obtain ⟨c', hc⟩ := hsome
  refine ⟨c', hc, ?_⟩
  obtain ⟨ip', time', hturn', hcases⟩ := tryAcquire_cases hc
  cases hturn.symm.trans hturn'
  obtain ⟨hfree, rfl⟩ | ⟨free, hfree, rfl⟩ := hcases
  · exact .inl ⟨by omega, rfl, rfl⟩
  · exact .inr ⟨by omega, ⟨_, List.getElem?_concat_length, rfl, rfl⟩, rfl⟩

/-- Make the moves of a schedule. -/
def run (app : AppState) (tls : Bool) (c : ListenerConf) : List ListenerMove → Option ListenerConf
  | [] => some c
  | m :: ms => (c.step app tls m).bind fun c' => run app tls c' ms

theorem Reach.of_run {ms : List ListenerMove} (h : Reach app tls cfg clock c)
    (hrun : run app tls c ms = some c') : Reach app tls cfg clock c' := by
  induction ms generalizing c with
  | nil => cases hrun; exact h
  | cons m ms ih =>
    obtain ⟨c₁, hstep, hrun⟩ := Option.bind_eq_some_iff.mp hrun
    exact ih (h.step hstep) hrun

theorem exists_of_run {ms : List ListenerMove} {P : ListenerConf → Bool}
    (h : (run app tls (start cfg clock) ms).any P) : ∃ c, Reach app tls cfg clock c ∧ P c := by
  obtain ⟨c, hc, hP⟩ := (Option.any_eq_true ..).mp h
  exact ⟨c, Reach.start.of_run hc, hP⟩

end ListenerConf

open ListenerConf

def listenerServer : AppState := ⟨.refusing [], .default, false⟩

def connect (ip : IpAddr) : List ListenerMove := [.accept ip, .tryAcquire 0 ⟨[], .eof⟩]

def fourConnections : List Connection :=
  [⟨1, 0, .session 0⟩, ⟨2, 0, .busy⟩, ⟨1, 0, .session 1⟩, ⟨1, 0, .limited 0 (some 1)⟩]

end AnonyMail.Smtp
