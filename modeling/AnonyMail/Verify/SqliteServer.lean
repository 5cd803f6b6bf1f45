import AnonyMail.Verify.SqliteAnswers
import AnonyMail.Verify.SqliteRefinement

/-! # The server over SQLite

Whatever the server does over the tables, in any interleaving, it does over the in-memory store in
the same interleaving: the same requests make the same calls, get the same answers and end alike.
Where the foreign key refuses a row, the in-memory store fails. -/

namespace AnonyMail

open Calls MemoryStore

/-- The tables hold what the in-memory store holds, and everything else is the same. The tables may
have used up more UUIDs. -/
structure Mirrors (w : World) (w' : SqliteWorld) : Prop where
  holds : Holds w.store w'.database
  sound : Sound w.store
  used : ∀ i ∈ w.store.usedIds, i ∈ w.uuids
  uuids : ∀ i ∈ w.uuids, i ∈ w'.rest.uuids
  rest : w'.rest = { w with store := w'.rest.store, uuids := w'.rest.uuids }

variable {app : AppState} {w w₁ : World} {w' w₁' : SqliteWorld} {e : Eff} {ch : Choice}

theorem mirrors_start (clock : DateTime) : Mirrors (.start clock) (.start clock) where
  holds := holds_empty
  sound := sound_empty
  used := by simp [World.start, Inner.usedIds, Inner.empty, messageIds, attachmentIds]
  uuids _ hi := hi
  rest := rfl

theorem Mirrors.clock (h : Mirrors w w') : w'.rest.clock = w.clock := by
  rw [h.rest]

/-- The calls that the store does not answer do not depend on it. -/
theorem exec_outside (he : ∀ op, e ≠ .store op) (s : Inner) (ids : List Uuid) :
    exec app { w with store := s, uuids := ids } e ch =
      (exec app w e ch).map fun (r, w₁) => (r, { w₁ with store := s, uuids := ids }) := by
  cases e with
  | store op => exact absurd rfl (he op)
  | randomBytes | randomRange =>
    cases ch <;> simp only [exec, Option.map_none]
    split <;> rfl
  | _ => cases ch <;> rfl

theorem exec_uuids_eq {r : e.Ans} (hx : exec app w e ch = some (r, w₁)) (he : ∀ op, e ≠ .store op) :
    w₁.uuids = w.uuids := by
  have hcopy := @exec_outside app w e ch he w.store w.uuids
  rw [hx] at hcopy
  exact congrArg (fun x => (x.2 : World).uuids) (Option.some.inj hcopy)

theorem execSqlite_outside (he : ∀ op, e ≠ .store op) :
    execSqlite app w' e ch = w'.outside (exec app w'.rest e ch) := by
  cases e with
  | store op => exact absurd rfl (he op)
  | _ => rfl

/-- The same answer, and the worlds correspond again. -/
theorem mirrors_outside (h : Mirrors w w') (he : ∀ op, e ≠ .store op) {r : e.Ans}
    (hx : execSqlite app w' e ch = some (r, w₁')) :
    ∃ w₁, exec app w e ch = some (r, w₁) ∧ Mirrors w₁ w₁' := by
  rw [execSqlite_outside he, h.rest, exec_outside he, SqliteWorld.outside, Option.map_map,
    Option.map_eq_some_iff] at hx
  obtain ⟨⟨r, w₁⟩, hexec, heq⟩ := hx
  cases heq
  have hstore := exec_store_eq hexec he
  have huuids := exec_uuids_eq hexec he
  refine ⟨w₁, hexec, ?_, ?_, ?_, ?_, rfl⟩
  · exact hstore ▸ h.holds
  · exact hstore ▸ h.sound
  · rw [hstore, huuids]
    exact h.used
  · rw [huuids]
    exact h.uuids

/-- A store call that goes through. -/
theorem mirrors_apply (h : Mirrors w w') (hbytes : app.config.mailboxQuotas.maxBytes < 2 ^ 63)
    {op : StoreOp} (hsize : op.Sized) {ids : List Uuid} (hlength : ids.length = op.uuids)
    (hnodup : ids.Nodup) (hnew : ∀ i ∈ ids, i ∉ w'.rest.uuids) :
    ∃ ch r w₁, exec app w (.store op) ch = some (r, w₁) ∧
      op.Agrees r (op.applySqlite app.config.mailboxQuotas w'.database w'.rest.clock ids).1 ∧
      Mirrors w₁ { w' with
        database := (op.applySqlite app.config.mailboxQuotas w'.database w'.rest.clock ids).2
        rest := { w'.rest with uuids := ids ++ w'.rest.uuids } } := by
  have hnew' : ∀ i ∈ ids, i ∉ w.uuids := fun i hi hmem => hnew i hi (h.uuids i hmem)
  have hd : DrawsNew w.store op ids :=
    ⟨hlength, hnodup, fun i hi hmem => hnew' i hi (h.used i hmem)⟩
  have hmatch : Matches op (op.applyHoused app.config.mailboxQuotas w.store w.clock ids)
      (op.applySqlite app.config.mailboxQuotas w'.database w.clock ids) :=
    match_apply h.holds h.sound hbytes hd hsize
  obtain ⟨hanswer, hholds⟩ := hmatch
  rw [h.clock]
  rw [StoreOp.applyHoused] at hanswer hholds
  split at hanswer
  · next hop =>
    rw [if_pos hop] at hholds
    refine ⟨.uuids ids, _, _, if_pos ⟨hlength, hnodup, hnew'⟩, hanswer, hholds,
      h.sound.apply hd hsize hop, fun i hi => ?_, fun i hi => ?_, ?_⟩
    · exact (usedIds_apply h.sound hd hi).elim (fun hi => List.mem_append_right _ (h.used i hi))
        fun hi => List.mem_append_left _ hi
    · exact (List.mem_append.mp hi).elim (fun hi => List.mem_append_left _ hi)
        fun hi => List.mem_append_right _ (h.uuids i hi)
    · rw [h.rest]
  · next hop =>
    rw [if_neg hop] at hholds
    refine ⟨.fail, .error .other, w, rfl, hanswer, hholds, h.sound, h.used, fun i hi => ?_, ?_⟩
    · exact List.mem_append_right _ (h.uuids i hi)
    · rw [h.rest]

theorem agrees_error (op : StoreOp) (e : StoreError) : op.Agrees (.error e) (.error e) := by
  cases op <;> first | rfl | exact .inl rfl

theorem mirrors_exec (hbytes : app.config.mailboxQuotas.maxBytes < 2 ^ 63) (h : Mirrors w w')
    (he : e.Sized) {r' : e.Ans} (hx : execSqlite app w' e ch = some (r', w₁')) :
    ∃ ch r w₁, exec app w e ch = some (r, w₁) ∧ e.Agrees r r' ∧ Mirrors w₁ w₁' := by
  by_cases hstore : ∃ op, e = .store op
  · obtain ⟨op, rfl⟩ := hstore
    cases ch with
    | uuids ids =>
      obtain ⟨⟨hlength, hnodup, hnew⟩, hx⟩ := Option.ite_none_right_eq_some.mp hx
      cases hx
      exact mirrors_apply h hbytes he hlength hnodup hnew
    | fail =>
      cases hx
      exact ⟨.fail, .error .other, w, rfl, agrees_error op _, h⟩
    | _ => cases hx
  · have hop : ∀ op, e ≠ .store op := fun op heq => hstore ⟨op, heq⟩
    obtain ⟨w₁, hexec, hw⟩ := mirrors_outside h hop hx
    refine ⟨ch, r', w₁, hexec, ?_, hw⟩
    cases e with
    | store op => exact absurd rfl (hop op)
    | _ => rfl

theorem mirrors_tick (h : Mirrors w w') (t : Tick) :
    Mirrors (w.tick t) { w' with rest := w'.rest.tick t } := by
  cases t with
  | clock t => exact ⟨h.holds, h.sound, h.used, h.uuids, by rw [World.tick, h.rest]; rfl⟩
  | instant n => exact ⟨h.holds, h.sound, h.used, h.uuids, by rw [World.tick, h.rest]; rfl⟩

theorem sqlite_simulation (app : AppState) (hbytes : app.config.mailboxQuotas.maxBytes < 2 ^ 63) :
    Simulation (server app) (sqliteServer app) Eff.Sized Eff.Agrees (fun _ => Outcome.Agrees)
      Mirrors where
  prog := task_like app
  exec h he hx := mirrors_exec hbytes h he hx
  env {w w' _ t} h hx := by
    cases hx
    exact ⟨_, rfl, mirrors_tick h t⟩

/-- Two configurations that no client can tell apart: the same requests have made the same calls, with
answers that agree, and each has ended alike or goes on alike. -/
abbrev SqliteConf.Mirrors (c : ServerConf) (c' : SqliteConf) : Prop :=
  c.Like Eff.Sized Eff.Agrees (fun _ => Outcome.Agrees) AnonyMail.Mirrors c'

/-- The mailbox of a session expires and is purged before its message is saved. -/
def refusedSave : List (Move Task Choice Tick) :=
  .spawn (.smtp 4 false Smtp.oneMessage) ::
    [.answer, .answer, .answer, .answer, .uuids [], .answer, .uuids [], .answer, .answer].map (.act 0) ++
    [.env (.clock (10 ^ 18)), .spawn .cleanup, .act 1 .answer, .act 1 (.uuids []),
      .act 0 (.uuids [1]), .act 0 .answer]

/-- The last line that the first client has got. -/
def lastReply (c : SqliteConf) : Option String := do (Smtp.replies (← c.procs[0]?).hist).getLast?

end AnonyMail
