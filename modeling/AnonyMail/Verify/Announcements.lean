import AnonyMail.Lib.Conservation
import AnonyMail.Verify.SqliteServer

/-! # Announcements

A session that has saved a copy announces it with its next call. In every run, over either store,
each saved copy is announced once, or is still to be announced by the session that has saved it; no
other mail is announced, and none twice. -/

namespace AnonyMail

open Calls Prog MemoryStore

/-- The event that announces a copy which has been saved. -/
def savedEvent (D : Deps) : Event Eff.Ans → Option MailEvent
  | ⟨.store (.saveMessage rcpt _), .ok stored⟩ => some (.fromStored D rcpt stored)
  | _ => none

/-- What has been saved with the last call. -/
def unannounced (D : Deps) (h : Hist) : List MailEvent := (h.getLast?.bind (savedEvent D)).toList

@[simp] theorem unannounced_nil (D : Deps) : unannounced D [] = [] := rfl

@[simp] theorem unannounced_concat (D : Deps) (h : Hist) (ev : Event Eff.Ans) :
    unannounced D (h ++ [ev]) = (savedEvent D ev).toList := by
  rw [unannounced, List.getLast?_concat, Option.bind_some]

variable {D : Deps} {app : AppState} {α β : Type}

/-! ## Programs -/

/-- A copy that has been saved is announced with the next call, and nothing else is announced. -/
def Announces (D : Deps) (h : Hist) (e : Eff) : Prop := e.announced = unannounced D h

/-- The program leaves nothing unannounced. -/
structure Settles (D : Deps) (p : Run α) : Prop where
  intro ::
  obeys (h : Hist) : unannounced D h = [] →
    Obeys (Announces D) (fun h' _ => unannounced D h' = []) h p

theorem settles_ret (a : α) : Settles D (.ret a : Run α) := ⟨fun _ hh => hh⟩

theorem settles_bind {p : Run α} {f : α → Run β} (hp : Settles D p) (hf : ∀ a, Settles D (f a)) :
    Settles D (p >>= f) :=
  ⟨fun h hh => obeys_bind.mpr ((hp.obeys h hh).mono fun h' a hh' => (hf a).obeys h' hh')⟩

theorem settles_call {e : Eff} (hann : e.announced = []) (hsave : ∀ r, savedEvent D ⟨e, r⟩ = none) :
    Settles D (call e) := by
  refine ⟨fun h hh => ⟨hann.trans hh.symm, fun r => ?_⟩⟩
  show unannounced D _ = []
  rw [unannounced_concat, hsave r]
  rfl

theorem closed_settles : Closed (Settles D) where
  ret := settles_ret
  bind := settles_bind
  call {e} he := by
    refine settles_call ?_ fun r => ?_
    · cases e <;> first | rfl | exact he.elim
    · cases e with
      | store op => cases op <;> first | rfl | exact he.elim
      | _ => rfl

theorem settles_createCaught (delivery domain : String) (expiresAt : DateTime) :
    Settles D (Smtp.createCaught delivery domain expiresAt) := by
  refine settles_bind (settles_call rfl fun _ => rfl) fun r => ?_
  split
  · exact settles_ret _
  · split
    · exact Smtp.closed_recheckActive closed_settles delivery
    · exact settles_ret _

/-- One copy after the other is saved and announced. -/
theorem settles_saveCopies (m : NewMessage) (rcpts : List String) :
    Settles D (Smtp.saveCopies D m rcpts) := by
  induction rcpts with
  | nil => exact settles_ret _
  | cons rcpt rcpts ih =>
    refine ⟨fun h hh => ⟨hh.symm, fun r => ?_⟩⟩
    cases r with
    | error e =>
      show unannounced D _ = []
      rw [unannounced_concat]
      rfl
    | ok stored =>
      have hsaved : unannounced D (h ++ [⟨.store (.saveMessage rcpt m), .ok stored⟩]) =
          [.fromStored D rcpt stored] := by
        rw [unannounced_concat]
        rfl
      refine ⟨hsaved.symm, fun r => ih.obeys _ ?_⟩
      rw [unannounced_concat]
      rfl

namespace Api

theorem settles_perform {e : Eff} (hann : e.announced = [])
    (hsave : ∀ r, savedEvent D ⟨e, r⟩ = none) : Settles D (perform e).run :=
  settles_bind (settles_call hann hsave) fun _ => settles_ret _

theorem settles_createCustom (l d : String) (x : DateTime) (device : Option String) :
    Settles D (Addresses.createCustom app l d x device).run := by
  refine closed_bind closed_settles (closed_settles.of_plain (plain_generateToken _)) fun token => ?_
  refine closed_bind closed_settles (settles_perform rfl fun _ => rfl) fun r => ?_
  split
  · exact settles_ret _
  · split <;> exact settles_ret _

theorem settles_createRandom (d : String) (x : DateTime) (device : Option String) (n : Nat) :
    Settles D (Addresses.createRandom app d x device n).run := by
  induction n with
  | zero => exact settles_ret _
  | succ n ih =>
    refine closed_bind closed_settles (closed_settles.of_plain (plain_generateToken _)) fun token => ?_
    refine closed_bind closed_settles (closed_settles.of_plain plain_randomLocalPart) fun l => ?_
    refine closed_bind closed_settles (settles_perform rfl fun _ => rfl) fun r => ?_
    split
    · exact settles_ret _
    · split
      · exact ih
      · exact settles_ret _

theorem settles_claim (peer : IpAddr) (hs : HeaderMap) (raw : String) :
    Settles D (CustomDomains.create.claim app peer hs raw).run := by
  have hplain : ∀ {γ : Type} {x : Handler γ}, Only Eff.Plain x.run → Settles D x.run :=
    closed_settles.of_plain
  unfold CustomDomains.create.claim
  split
  · exact settles_ret _
  · refine closed_bind closed_settles (hplain (only_perform trivial)) fun now => ?_
    refine closed_bind closed_settles (hplain (only_perform trivial)) fun ok => ?_
    split
    · exact settles_ret _
    · refine closed_bind closed_settles (hplain (plain_generateToken _)) fun token => ?_
      refine closed_bind closed_settles (hplain plain_generateTxtToken) fun txtToken => ?_
      refine closed_bind closed_settles (settles_perform rfl fun _ => rfl) fun r => ?_
      split
      · exact settles_ret _
      · split <;> exact settles_ret _

end Api

theorem taskClosed_settles (app : AppState) : TaskClosed app (Settles app.deps) where
  toClosed := closed_settles
  caught := settles_createCaught
  copies m rcpts _ := settles_saveCopies m rcpts
  custom := Api.settles_createCustom
  random := Api.settles_createRandom
  claim := Api.settles_claim

theorem settles_getMessage (a : String) (id : Uuid) :
    Settles D (Task.prog app (.http (.getMessage a id))) := by
  refine settles_bind (Api.closed_map closed_settles ?_) fun _ => settles_ret _
  refine Api.closed_bind closed_settles ⟨fun h hh => ⟨hh.symm, fun r => ?_⟩⟩
    fun o => closed_settles.of_plain Api.only_okOr
  cases r <;> (show unannounced D _ = []; rw [unannounced_concat]; rfl)

theorem task_settles (app : AppState) (t : Task) : Settles app.deps (t.prog app) := by
  by_cases ht : ∃ a id, t = .http (.getMessage a id)
  · obtain ⟨a, id, rfl⟩ := ht
    exact settles_getMessage a id
  · exact (taskClosed_settles app).prog t fun a id heq => ht ⟨a, id, heq⟩

/-! ## Runs -/

/-- The announcements of the copies that have been saved, in the order in which they were saved. -/
def savedIn {σ : Type} (D : Deps) (log : List (Entry σ Task Eff.Ans)) : List MailEvent :=
  log.flatMap fun x => (savedEvent D ⟨x.call, x.answer⟩).toList

/-- The mail announced so far is the mail saved so far, less what a session has yet to announce. -/
structure Announced {σ : Type} (D : Deps) (published : List MailEvent)
    (c : Conf σ Task Eff.Ans Outcome) : Prop where
  conserved : (savedIn D c.log).Perm (published ++ c.procs.flatMap fun p => unannounced D p.hist)
  distinct : ((savedIn D c.log).map (·.id)).Nodup
  settled : ∀ p ∈ c.procs, p.rest.Done → unannounced D p.hist = []

section Memory

variable {ok : ServerConf → ServerMove → Prop} {clock : DateTime} {c c' : ServerConf} {w w' : World}
  {ch : Choice} {m : ServerMove}

theorem exec_published {e : Eff} {r : e.Ans} (hx : exec app w e ch = some (r, w')) :
    w'.published = w.published ++ e.announced := by
  have heffect := exec_effect hx
  cases heffect with
  | publish event => rfl
  | store | drawn | issue | consume => exact (List.append_nil _).symm
  | quiet =>
    cases e with
    | publish event => exact (congrArg (fun x => (x.2 : World).published) (Option.some.inj hx)).symm
    | _ => exact (List.append_nil _).symm

theorem saved_conserved (h : (server app).Reach ok (System.init (.start clock)) c) :
    (savedIn app.deps c.log).Perm
      (c.world.published ++ c.procs.flatMap fun p => unannounced app.deps p.hist) := by
  refine h.conserved (unannounced app.deps) World.published rfl rfl
    (fun {c i t hist e k ch r w'} hc hi hx => ?_) fun {v x v'} henv => ?_
  · have hobeys := hc.obeys (Φ := fun _ => Announces app.deps)
      (Q := fun _ h' _ => unannounced app.deps h' = [])
      (fun t => (task_settles app t).obeys [] rfl) _ (List.mem_of_getElem? hi)
    have hann : e.announced = unannounced app.deps hist := hobeys.1
    rw [exec_published hx, hann, unannounced_concat]
  · cases henv
    cases x <;> rfl

/-- A copy that is saved gets an id that has not been drawn before. -/
theorem saved_new {e : Eff} {r : e.Ans} {event : MailEvent} (hx : exec app w e ch = some (r, w'))
    (hsaved : savedEvent app.deps ⟨e, r⟩ = some event) :
    event.id ∉ w.uuids ∧ event.id ∈ w'.uuids := by
  unfold savedEvent at hsaved
  split at hsaved
  · next rcpt m stored heq =>
    cases heq
    cases hsaved
    obtain ⟨-, herr, -⟩ | ⟨ids, -, hlength, -, hnew, hap, hw⟩ := exec_store_cases hx
    · cases herr
    · have hid : stored.id ∈ ids := by
        cases ids with
        | nil => cases hlength
        | cons id ids =>
          cases Except.ok.inj (congrArg Prod.fst hap)
          exact List.mem_cons_self
      rw [hw]
      exact ⟨hnew _ hid, List.mem_append_left _ hid⟩
  · cases hsaved

theorem uuids_mono {e : Eff} {r : e.Ans} (hx : exec app w e ch = some (r, w')) {i : Uuid}
    (hi : i ∈ w.uuids) : i ∈ w'.uuids := by
  by_cases he : ∃ op, e = .store op
  · obtain ⟨op, rfl⟩ := he
    obtain ⟨-, -, rfl⟩ | ⟨ids, -, -, -, -, -, hw⟩ := exec_store_cases hx
    · exact hi
    · rw [hw]
      exact List.mem_append_right _ hi
  · rw [exec_uuids_eq hx fun op heq => he ⟨op, heq⟩]
    exact hi

/-- The ids of what a call saves are new, and drawn with it. -/
theorem saved_drawn {e : Eff} {r : e.Ans} (hx : exec app w e ch = some (r, w')) :
    ((savedEvent app.deps ⟨e, r⟩).toList.map (·.id)).Nodup ∧
      (∀ i ∈ (savedEvent app.deps ⟨e, r⟩).toList.map (·.id), i ∉ w.uuids ∧ i ∈ w'.uuids) ∧
      w.uuids ⊆ w'.uuids := by
  refine ⟨?_, fun i hi => ?_, fun i hi => uuids_mono hx hi⟩
  · cases savedEvent app.deps ⟨e, r⟩ with
    | none => exact List.nodup_nil
    | some event => exact List.nodup_singleton _
  · obtain ⟨event, hevent, rfl⟩ := List.mem_map.mp hi
    exact saved_new hx (Option.mem_toList.mp hevent)

theorem saved_distinct (h : (server app).Reach ok (System.init (.start clock)) c) :
    ((savedIn app.deps c.log).map (·.id)).Nodup := by
  rw [savedIn, List.map_flatMap]
  refine (h.distinct World.uuids (fun i t hx => saved_drawn hx) fun henv => ?_).1
  cases henv
  rename_i v x
  cases x <;> exact List.Subset.refl _

theorem announced_of_reach (h : (server app).Reach ok (System.init (.start clock)) c) :
    Announced app.deps c.world.published c where
  conserved := saved_conserved h
  distinct := saved_distinct h
  settled p hp hdone := by
    have hobeys := h.obeys (Φ := fun _ => Announces app.deps)
      (Q := fun _ h' _ => unannounced app.deps h' = [])
      (fun t => (task_settles app t).obeys [] rfl) p hp
    cases hrest : p.rest with
    | ret a =>
      rw [hrest] at hobeys
      exact hobeys
    | call e k =>
      rw [hrest] at hdone
      exact hdone.elim

end Memory

/-! ## Over SQLite -/

theorem map_eq_of_forall₂ {l : List α} {l' : List β} {γ : Type} {f : α → γ} {g : β → γ}
    (h : List.Forall₂ (fun a b => f a = g b) l l') : l.map f = l'.map g := by
  rw [← List.forall₂_eq_eq_eq, List.forall₂_map_left_iff, List.forall₂_map_right_iff]
  exact h

theorem savedEvent_like {ev ev' : Event Eff.Ans} (h : Event.Like Eff.Agrees ev ev') :
    savedEvent D ev = savedEvent D ev' := by
  obtain ⟨hr⟩ := h
  rename_i e r r'
  cases e with
  | store op =>
    cases op with
    | saveMessage => exact congrArg _ (congrArg _ (hr : r = r'))
    | _ => rfl
  | _ => rfl

theorem unannounced_like {h h' : Hist} (hh : List.Forall₂ (Event.Like Eff.Agrees) h h') :
    unannounced D h = unannounced D h' := by
  have hmap := map_eq_of_forall₂ (hh.imp fun _ _ hev => savedEvent_like (D := D) hev)
  have hlast : ∀ l : Hist, unannounced D l = ((l.map (savedEvent D)).getLast?.join).toList := by
    intro l
    rw [List.getLast?_map, unannounced]
    cases l.getLast? <;> rfl
  rw [hlast, hlast, hmap]

theorem Announced.over_sqlite {c : ServerConf} {c' : SqliteConf}
    (h : Announced D c.world.published c) (hm : SqliteConf.Mirrors c c') :
    Announced D c'.world.rest.published c' := by
  have hsaved : savedIn D c.log = savedIn D c'.log := by
    rw [savedIn, savedIn, List.flatMap_def, List.flatMap_def]
    congr 1
    exact map_eq_of_forall₂ (hm.log.imp fun _ _ hx => by rw [savedEvent_like hx.event])
  have hheld : (c.procs.flatMap fun p => unannounced D p.hist) =
      c'.procs.flatMap fun p => unannounced D p.hist := by
    rw [List.flatMap_def, List.flatMap_def]
    congr 1
    exact map_eq_of_forall₂ (hm.procs.imp fun _ _ hp => unannounced_like hp.hist)
  have hpublished : c'.world.rest.published = c.world.published := by rw [hm.world.rest]
  refine ⟨?_, hsaved ▸ h.distinct, fun p' hp' hdone => ?_⟩
  · rw [hpublished, ← hsaved, ← hheld]
    exact h.conserved
  · obtain ⟨i, hi⟩ := List.getElem?_of_mem hp'
    obtain ⟨⟨tag, hist, rest⟩, hp, hlike⟩ := exists_of_forall₂_getElem? hm.procs hi
    obtain ⟨tag', hist', rest'⟩ := p'
    rw [← unannounced_like hlike.hist]
    refine h.settled _ (List.mem_of_getElem? hp) ?_
    obtain _ | _ := hlike.rest
    · trivial
    · exact hdone.elim

def acceptedSave : List (Move Task Choice Tick) :=
  .spawn (.smtp 4 false Smtp.oneMessage) ::
    [.answer, .answer, .answer, .answer, .uuids [], .answer, .uuids [], .answer, .answer, .uuids [1],
      .answer, .answer].map (.act 0)

end AnonyMail
