import AnonyMail.Server

/-! # Program logic for handlers

`Safe Φ h x`: started after the calls `h`, the program `x` makes only calls that `Φ` allows after
the calls made before them. There is one rule for each way handlers are put together, so that a
handler is followed from call to call without unfolding its monad. -/

namespace AnonyMail

open Calls Prog

abbrev Hist := List (Event Eff.Ans)

structure Safe (Φ : Hist → Eff → Prop) (h : Hist) (p : Run α) : Prop where
  intro ::
  obeys : Obeys Φ (fun _ _ => True) h p

variable {Φ : Hist → Eff → Prop} {h : Hist}

theorem safe_ret {a : α} : Safe Φ h (.ret a : Run α) := ⟨trivial⟩

theorem safe_call {e : Eff} {k : e.Ans → Run α} (he : Φ h e)
    (hk : ∀ r, Safe Φ (h ++ [⟨e, r⟩]) (k r)) : Safe Φ h (.call e k) :=
  ⟨he, fun r => (hk r).obeys⟩

theorem Safe.answer {e : Eff} {k : e.Ans → Run α} (hp : Safe Φ h (.call e k)) (r : e.Ans) :
    Safe Φ (h ++ [⟨e, r⟩]) (k r) := ⟨hp.obeys.2 r⟩

theorem safe_bind_of_obeys {p : Run α} {f : α → Run β} {Q : Hist → α → Prop}
    (hp : Obeys Φ Q h p) (hf : ∀ h' a, Q h' a → Safe Φ h' (f a)) : Safe Φ h (p >>= f) :=
  ⟨obeys_bind.mpr (hp.mono fun h' a hQ => (hf h' a hQ).obeys)⟩

/-- What `p` does and then what `f` does, from any calls that `p` can have made. -/
theorem Safe.bind {p : Run α} {f : α → Run β} (hp : Safe Φ h p)
    (hf : ∀ h' a, h <+: h' → Safe Φ h' (f a)) : Safe Φ h (p >>= f) := by
  induction p generalizing h with
  | ret a => exact hf h a (List.prefix_refl h)
  | call e k ih =>
    refine safe_call hp.obeys.1 fun r => ih r (hp.answer r) fun h' a hle => ?_
    exact hf h' a ((List.prefix_append ..).trans hle)

theorem Safe.imp {Φ' : Hist → Eff → Prop} {p : Run α} (hp : Safe Φ h p)
    (hΦ : ∀ h e, Φ h e → Φ' h e) : Safe Φ' h p := by
  induction p generalizing h with
  | ret a => exact safe_ret
  | call e k ih => exact safe_call (hΦ _ _ hp.obeys.1) fun r => ih r (hp.answer r)

/-- `Only N p`: the program `p` makes only calls of the kind `N`. -/
def Only (N : Eff → Prop) (p : Run α) : Prop := ∀ h, Safe (fun _ e => N e) h p

theorem Only.imp {N N' : Eff → Prop} {p : Run α} (hp : Only N p) (hN : ∀ e, N e → N' e) :
    Only N' p := fun h => (hp h).imp fun _ e => hN e

/-- What holds of every result after calls of the kind `N`. -/
theorem Only.obeys {N : Eff → Prop} {p : Run α} {Q : Hist → α → Prop} (hp : Only N p)
    (hN : ∀ l e, (∀ ev ∈ l, N ev.1) → N e → Φ (h ++ l) e)
    (hQ : ∀ l a, (∀ ev ∈ l, N ev.1) → Q (h ++ l) a) : Obeys Φ Q h p := by
  replace hp := hp h
  induction p generalizing h with
  | ret a => simpa using hQ [] a (by simp)
  | call e k ih =>
    have he : N e := hp.obeys.1
    refine ⟨by simpa using hN [] e (by simp) he, fun r => ih r (fun l e' hl => ?_) (fun l a hl => ?_)
      (hp.answer r)⟩ <;> rw [List.append_assoc]
    · exact hN _ e' (List.forall_mem_cons.mpr ⟨he, hl⟩)
    · exact hQ _ a (List.forall_mem_cons.mpr ⟨he, hl⟩)

/-- As `Safe.bind`, with the kind of the calls that `p` has made. -/
theorem Only.bind_safe {N : Eff → Prop} {p : Run α} {f : α → Run β} (hp : Only N p)
    (hN : ∀ h e, N e → Φ h e) (hf : ∀ l a, (∀ ev ∈ l, N ev.1) → Safe Φ (h ++ l) (f a)) :
    Safe Φ h (p >>= f) :=
  ⟨obeys_bind.mpr (hp.obeys (fun _ _ _ => hN _ _) fun l a hl => (hf l a hl).obeys)⟩

theorem safe_call_bind {e : Eff} {f : e.Ans → Run β} (he : Φ h e)
    (hf : ∀ r, Safe Φ (h ++ [⟨e, r⟩]) (f r)) : Safe Φ h (call e >>= f) := safe_call he hf

theorem Safe.map {p : Run α} {f : α → β} (hp : Safe Φ h p) : Safe Φ h (f <$> p) :=
  Safe.bind hp fun _ _ _ => safe_ret

namespace Api

variable {x : Handler α} {f : α → Handler β}

theorem run_bind : (x >>= f).run = x.run >>= fun
    | .ok a => (f a).run
    | .error e => .ret (.error e) := by
  rw [ExceptT.run_bind]
  congr 1
  funext r
  cases r <;> rfl

theorem safe_pure {a : α} : Safe Φ h (pure a : Handler α).run := safe_ret

theorem safe_throw {e : ApiError} : Safe Φ h (throw e : Handler α).run := safe_ret

theorem bind_of_obeys {Q : Hist → α → Prop}
    (hx : Obeys Φ (fun h' r => ∀ a, r = .ok a → Q h' a) h x.run)
    (hf : ∀ h' a, Q h' a → Safe Φ h' (f a).run) : Safe Φ h (x >>= f).run := by
  rw [run_bind]
  refine safe_bind_of_obeys hx fun h' r hQ => ?_
  cases r with
  | ok a => exact hf h' a (hQ a rfl)
  | error e => exact safe_ret

theorem Safe.bind (hx : Safe Φ h x.run) (hf : ∀ h' a, h <+: h' → Safe Φ h' (f a).run) :
    Safe Φ h (x >>= f).run := by
  rw [run_bind]
  refine AnonyMail.Safe.bind hx fun h' r hle => ?_
  cases r with
  | ok a => exact hf h' a hle
  | error e => exact safe_ret

theorem bind_only {N : Eff → Prop} (hx : Only N x.run) (hN : ∀ h e, N e → Φ h e)
    (hf : ∀ l a, (∀ ev ∈ l, N ev.1) → Safe Φ (h ++ l) (f a).run) : Safe Φ h (x >>= f).run := by
  rw [run_bind]
  refine hx.bind_safe hN fun l r hl => ?_
  cases r with
  | ok a => exact hf l a hl
  | error e => exact safe_ret

/-- `x` makes only calls that `Φ` allows, and each result with which it succeeds satisfies `Q`. -/
structure Yields (Φ : Hist → Eff → Prop) (Q : Hist → α → Prop) (h : Hist) (x : Handler α) : Prop where
  intro ::
  obeys : Obeys Φ (fun h' r => ∀ a, r = .ok a → Q h' a) h x.run

section
variable {Q : Hist → α → Prop} {R : Hist → β → Prop}

theorem yields_pure {a : α} (ha : Q h a) : Yields Φ Q h (pure a : Handler α) := by
  refine ⟨?_⟩
  rintro _ ⟨⟩
  exact ha

theorem yields_throw {e : ApiError} : Yields Φ Q h (throw e : Handler α) := ⟨nofun⟩

theorem yields_any : Yields (fun _ _ => True) (fun _ _ => True) h x :=
  ⟨obeys_trivial.mono fun _ _ _ _ _ => trivial⟩

/-- What has been done stays done. -/
theorem yields_of_mem {ev : Event Eff.Ans} (hev : ev ∈ h) (hQ : ∀ h' a, ev ∈ h' → Q h' a) :
    Yields (fun _ _ => True) Q h x := ⟨(obeys_mem hev).mono fun h' _ hmem a _ => hQ h' a hmem⟩

theorem Yields.bind (hx : Yields Φ Q h x) (hf : ∀ h' a, Q h' a → Yields Φ R h' (f a)) :
    Yields Φ R h (x >>= f) := by
  refine ⟨?_⟩
  rw [run_bind, obeys_bind]
  refine hx.obeys.mono fun h' r hQ => ?_
  cases r with
  | ok a => exact (hf h' a (hQ a rfl)).obeys
  | error e => exact nofun

theorem Yields.map {g : α → β} (hx : Yields Φ (fun h' a => R h' (g a)) h x) :
    Yields Φ R h (g <$> x) := by
  rw [map_eq_pure_bind]
  exact Yields.bind hx fun _ _ hQ => yields_pure hQ

theorem Yields.safe_bind (hx : Yields Φ Q h x) (hf : ∀ h' a, Q h' a → Safe Φ h' (f a).run) :
    Safe Φ h (x >>= f).run := bind_of_obeys hx.obeys hf

theorem yields_perform_bind {e : Eff} {f : e.Ans → Handler β} (he : Φ h e)
    (hf : ∀ r, Yields Φ R (h ++ [⟨e, r⟩]) (f r)) : Yields Φ R h (perform e >>= f) :=
  ⟨he, fun r => (hf r).obeys⟩

theorem yields_store_bind {op : StoreOp} {f : op.Out → Handler β} (he : Φ h (.store op))
    (hf : ∀ a, Yields Φ R (h ++ [⟨.store op, .ok a⟩]) (f a)) : Yields Φ R h (store op >>= f) := by
  refine ⟨he, fun r => ?_⟩
  cases r with
  | ok a => exact (hf a).obeys
  | error e => exact nofun

theorem yields_okOr_bind {e : ApiError} {o : Option α} {f : α → Handler β}
    (hf : ∀ a, o = some a → Yields Φ R h (f a)) : Yields Φ R h (okOr e o >>= f) := by
  cases o with
  | none => exact ⟨nofun⟩
  | some a => exact hf a rfl

theorem yields_orPanic_bind {o : Option α} {f : α → Handler β} (he : o = none → Φ h .panic)
    (hf : ∀ a, o = some a → Yields Φ R h (f a)) : Yields Φ R h (orPanic o >>= f) := by
  cases o with
  | none => exact ⟨⟨he rfl, nofun⟩⟩
  | some a => exact hf a rfl

end

theorem only_of_yields {N : Eff → Prop} {Q : Hist → Hist → α → Prop} {x : Handler α}
    (hx : ∀ h, Yields (fun _ e => N e) (Q h) h x) : Only N x.run :=
  fun h => ⟨(hx h).obeys.mono fun _ _ _ => trivial⟩

/-- `x` makes only calls that `Φ` allows, and each result, errors included, satisfies `Q`. -/
structure Ends (Φ : Hist → Eff → Prop) (Q : Hist → Except ApiError α → Prop) (h : Hist)
    (x : Handler α) : Prop where
  intro ::
  obeys : Obeys Φ Q h x.run

section
variable {Q : Hist → Except ApiError α → Prop} {R : Hist → Except ApiError β → Prop}

theorem ends_pure {a : α} (ha : Q h (.ok a)) : Ends Φ Q h (pure a) := ⟨ha⟩

theorem ends_throw {e : ApiError} (he : Q h (.error e)) : Ends Φ Q h (throw e) := ⟨he⟩

theorem ends_perform_bind {e : Eff} {f : e.Ans → Handler β} (he : Φ h e)
    (hf : ∀ r, Ends Φ R (h ++ [⟨e, r⟩]) (f r)) : Ends Φ R h (perform e >>= f) :=
  ⟨he, fun r => (hf r).obeys⟩

theorem ends_store_bind {op : StoreOp} {f : op.Out → Handler β} (he : Φ h (.store op))
    (herr : ∀ e, R (h ++ [⟨.store op, .error e⟩]) (.error (.internal (.store e))))
    (hf : ∀ a, Ends Φ R (h ++ [⟨.store op, .ok a⟩]) (f a)) : Ends Φ R h (store op >>= f) := by
  refine ⟨he, fun r => ?_⟩
  cases r with
  | ok a => exact (hf a).obeys
  | error e => exact herr e

theorem Ends.bind (hx : Ends Φ Q h x) (herr : ∀ h' e, Q h' (.error e) → R h' (.error e))
    (hf : ∀ h' a, Q h' (.ok a) → Ends Φ R h' (f a)) : Ends Φ R h (x >>= f) := by
  refine ⟨?_⟩
  rw [run_bind, obeys_bind]
  refine hx.obeys.mono fun h' r hQ => ?_
  cases r with
  | ok a => exact (hf h' a hQ).obeys
  | error e => exact herr h' e hQ

/-- As `bind_only`, for results that are errors too. -/
theorem ends_bind_only {N : Eff → Prop} (hx : Only N x.run)
    (hN : ∀ l e, (∀ ev ∈ l, N ev.1) → N e → Φ (h ++ l) e)
    (herr : ∀ l e, (∀ ev ∈ l, N ev.1) → R (h ++ l) (.error e))
    (hf : ∀ l a, (∀ ev ∈ l, N ev.1) → Ends Φ R (h ++ l) (f a)) : Ends Φ R h (x >>= f) := by
  refine ⟨?_⟩
  rw [run_bind, obeys_bind]
  refine hx.obeys hN fun l r hl => ?_
  cases r with
  | ok a => exact (hf l a hl).obeys
  | error e => exact herr l e hl

theorem ends_orPanic_bind {o : Option α} (he : o = none → Φ h .panic)
    (hf : ∀ a, o = some a → Ends Φ R h (f a)) : Ends Φ R h (orPanic o >>= f) := by
  cases o with
  | none => exact ⟨⟨he rfl, nofun⟩⟩
  | some a => exact hf a rfl

theorem ends_orPanic {o : Option α} (he : o = none → Φ h .panic)
    (ho : ∀ a, o = some a → Q h (.ok a)) : Ends Φ Q h (orPanic o) := by
  cases o with
  | none => exact ⟨⟨he rfl, nofun⟩⟩
  | some a => exact ends_pure (ho a rfl)

theorem Ends.mono {Q' : Hist → Except ApiError α → Prop} (hx : Ends Φ Q h x)
    (hQ : ∀ h' r, Q h' r → Q' h' r) : Ends Φ Q' h x := ⟨hx.obeys.mono hQ⟩

theorem Ends.map {g : α → β} (hx : Ends Φ (fun h' r => R h' (r.map g)) h x) : Ends Φ R h (g <$> x) := by
  refine ⟨?_⟩
  show Obeys _ _ _ (x >>= fun a => pure (g a)).run
  rw [run_bind, obeys_bind]
  refine hx.obeys.mono fun h' r hQ => ?_
  cases r with
  | ok a => exact hQ
  | error e => exact hQ

end

theorem safe_map {g : α → β} (hx : Safe Φ h x.run) : Safe Φ h (g <$> x).run :=
  Safe.bind hx fun _ _ _ => safe_pure

theorem safe_perform_bind {e : Eff} {f : e.Ans → Handler β} (he : Φ h e)
    (hf : ∀ r, Safe Φ (h ++ [⟨e, r⟩]) (f r).run) : Safe Φ h (perform e >>= f).run :=
  safe_call he hf

theorem safe_lift_bind {p : Run α} (hp : Safe Φ h p)
    (hf : ∀ h' a, h <+: h' → Safe Φ h' (f a).run) :
    Safe Φ h ((ExceptT.lift p : Handler α) >>= f).run :=
  Safe.bind (AnonyMail.Safe.map hp) hf

theorem safe_store_bind {op : StoreOp} {f : op.Out → Handler β} (he : Φ h (.store op))
    (hf : ∀ a, Safe Φ (h ++ [⟨.store op, .ok a⟩]) (f a).run) : Safe Φ h (store op >>= f).run := by
  refine safe_call he fun r => ?_
  cases r with
  | ok a => exact hf a
  | error e => exact safe_ret

theorem safe_store {op : StoreOp} (he : Φ h (.store op)) : Safe Φ h (store op).run := by
  refine safe_call he fun r => ?_
  cases r with
  | ok a => exact safe_ret
  | error e => exact safe_ret

theorem safe_okOr_bind {e : ApiError} {o : Option α} {f : α → Handler β}
    (hf : ∀ a, o = some a → Safe Φ h (f a).run) : Safe Φ h (okOr e o >>= f).run := by
  cases o with
  | none => exact safe_ret
  | some a => exact hf a rfl

theorem safe_okOr {e : ApiError} {o : Option α} : Safe Φ h (okOr e o).run := by
  cases o with
  | none => exact safe_ret
  | some a => exact safe_ret

theorem safe_orPanic_bind {o : Option α} {f : α → Handler β} (he : Φ h .panic)
    (hf : ∀ a, o = some a → Safe Φ h (f a).run) : Safe Φ h (orPanic o >>= f).run := by
  cases o with
  | none => exact safe_call he nofun
  | some a => exact hf a rfl

theorem safe_orPanic {o : Option α} (he : Φ h .panic) : Safe Φ h (orPanic o).run := by
  cases o with
  | none => exact safe_call he nofun
  | some a => exact safe_ret

end Api

namespace Smtp

variable {x : Io α} {f : α → Io β}

theorem run_bind : (x >>= f).run = x.run >>= fun
    | some a => (f a).run
    | none => .ret none := by
  rw [OptionT.run_bind, Option.elimM]
  congr 1
  funext o
  cases o <;> rfl

theorem Safe.bind (hx : Safe Φ h x.run) (hf : ∀ h' a, h <+: h' → Safe Φ h' (f a).run) :
    Safe Φ h (x >>= f).run := by
  rw [run_bind]
  refine AnonyMail.Safe.bind hx fun h' r hle => ?_
  cases r with
  | some a => exact hf h' a hle
  | none => exact safe_ret

theorem safe_lift {p : Run α} (hp : Safe Φ h p) : Safe Φ h (OptionT.lift p : Io α).run :=
  AnonyMail.Safe.bind hp fun _ _ _ => safe_ret

theorem safe_pure {a : α} : Safe Φ h (pure a : Io α).run := safe_ret

theorem safe_failure : Safe Φ h (failure : Io α).run := safe_ret

theorem safe_writeLine {line : String} (he : Φ h (.reply [line])) : Safe Φ h (writeLine line).run :=
  safe_call he fun _ => safe_ret

/-! ## Runs of a session -/

/-- The lines sent to the client. -/
def replies (tr : Hist) : List String := tr.flatMap fun
  | ⟨.reply lines, _⟩ => lines
  | _ => []

theorem runs_io_bind {tr : Hist} {b : β} : Runs (x >>= f).run tr (some b) ↔
    ∃ a tr₁ tr₂, tr = tr₁ ++ tr₂ ∧ Runs x.run tr₁ (some a) ∧ Runs (f a).run tr₂ (some b) := by
  rw [run_bind, runs_bind]
  constructor
  · rintro ⟨o, tr₁, tr₂, rfl, h₁, h₂⟩
    cases o with
    | none => cases h₂
    | some a => exact ⟨a, tr₁, tr₂, rfl, h₁, h₂⟩
  · rintro ⟨a, tr₁, tr₂, rfl, h₁, h₂⟩
    exact ⟨some a, tr₁, tr₂, rfl, h₁, h₂⟩

theorem runs_io_pure {tr : Hist} {a b : α} :
    Runs (pure a : Io α).run tr (some b) ↔ tr = [] ∧ b = a := by
  show Runs (.ret (some a)) tr (some b) ↔ _
  rw [runs_ret, Option.some.injEq]

theorem runs_writeLine {line : String} {tr : Hist} {u : Unit} :
    Runs (writeLine line).run tr (some u) ↔ tr = [⟨.reply [line], some ()⟩] := by
  show Runs (.call (.reply [line]) .ret) tr (some u) ↔ _
  rw [runs_call]
  constructor
  · rintro ⟨r, tr', rfl, h⟩
    obtain ⟨rfl, rfl⟩ := runs_ret.mp h
    rfl
  · rintro rfl
    exact ⟨some (), [], rfl, .ret⟩

theorem runs_lift {p : Run α} {tr : Hist} {a : α} :
    Runs (OptionT.lift p : Io α).run tr (some a) ↔ Runs p tr a := by
  show Runs (p >>= fun a => .ret (some a)) tr (some a) ↔ _
  rw [runs_bind]
  constructor
  · rintro ⟨b, tr₁, tr₂, rfl, h₁, h₂⟩
    obtain ⟨rfl, heq⟩ := runs_ret.mp h₂
    cases heq
    rwa [List.append_nil]
  · exact fun h => ⟨a, tr, [], (List.append_nil tr).symm, h, .ret⟩

/-- A turn that only answers. -/
theorem runs_writeLine_pure {line : String} {tr : Hist} {a b : α} :
    Runs (do writeLine line; return a : Io α).run tr (some b) ↔
      tr = [⟨.reply [line], some ()⟩] ∧ b = a := by
  rw [runs_io_bind]
  constructor
  · rintro ⟨u, tr₁, tr₂, rfl, h₁, h₂⟩
    obtain ⟨rfl, rfl⟩ := runs_io_pure.mp h₂
    exact ⟨by rw [List.append_nil, runs_writeLine.mp h₁], rfl⟩
  · rintro ⟨rfl, rfl⟩
    exact ⟨(), _, [], rfl, runs_writeLine.mpr rfl, runs_io_pure.mpr ⟨rfl, rfl⟩⟩

end Smtp
end AnonyMail
