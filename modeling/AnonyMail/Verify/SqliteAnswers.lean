import AnonyMail.Lib.Simulation
import AnonyMail.Verify.Programs
import AnonyMail.Verify.SqliteStore

/-! # What the programs see of the store

The two stores answer most calls alike. They differ in the text of a uniqueness error, of which the
handlers only read that it is one, and in the order of the attachments of a message, which only
`Messages.get` shows. All other programs make the same calls and end alike over either store. -/

namespace AnonyMail

open Calls Prog

/-- The answers of the two servers to a call. -/
def Eff.Agrees : (e : Eff) → e.Ans → e.Ans → Prop
  | .store op, r, r' => op.Agrees r r'
  | _, r, r' => r = r'

def Eff.Sized : Eff → Prop
  | .store op => op.Sized
  | _ => True

theorem Eff.Plain.sized {e : Eff} (he : e.Plain) : e.Sized := by
  cases e with
  | store op =>
    intro a m heq
    subst heq
    exact he.elim
  | _ => trivial

theorem Eff.Plain.eq {e : Eff} {r r' : e.Ans} (he : e.Plain) (h : e.Agrees r r') : r = r' := by
  cases e with
  | store op => cases op <;> first | exact h | exact he.elim
  | _ => exact h

/-- `p` makes the same calls and returns the same result, whichever of the two answers it gets. -/
def Blind {α : Type} (p : Run α) : Prop := Like Eff.Sized Eff.Agrees Eq p p

variable {α : Type}

theorem blind_ret (a : α) : Blind (.ret a : Run α) := .ret rfl

theorem closed_blind : Closed Blind where
  ret := blind_ret
  bind hp hf := Like.bind hp fun a _ hab => hab ▸ hf a
  call he := .call_exact he.sized (fun _ _ => he.eq) blind_ret

/-- A new row, or an error that `isUniqueViolation` tells from others. -/
theorem blind_unlessTaken {op : StoreOp} {k : Except StoreError op.Out → Run α}
    (hop : op.Sized) (hA : ∀ r r', op.Agrees r r' → SameUnlessTaken r r')
    (hk : ∀ text text', k (.error (.uniqueViolation text)) = k (.error (.uniqueViolation text')))
    (hblind : ∀ r, Blind (k r)) : Blind (.call (.store op) k) := by
  refine .call hop fun r r' hr => ?_
  obtain rfl | ⟨text, text', rfl, rfl⟩ := hA r r' hr
  · exact hblind r
  · rw [hk text' text]
    exact hblind _

/-! ## Rows that may be taken -/

theorem blind_createCaught (delivery domain : String) (expiresAt : DateTime) :
    Blind (Smtp.createCaught delivery domain expiresAt) := by
  refine blind_unlessTaken nofun (fun _ _ h => h) (fun _ _ => rfl) fun r => ?_
  cases r with
  | ok mb => exact blind_ret _
  | error e =>
    cases e with
    | uniqueViolation => exact Smtp.closed_recheckActive closed_blind delivery
    | subscriptionLimit | other => exact blind_ret _

namespace Api

variable {app : AppState}

theorem blind_generateToken (pre : String) : Blind (generateToken app.deps pre).run :=
  closed_blind.of_plain (plain_generateToken pre)

theorem blind_createCustom (l d : String) (x : DateTime) (device : Option String) :
    Blind (Addresses.createCustom app l d x device).run := by
  refine closed_bind closed_blind (blind_generateToken _) fun token => ?_
  refine blind_unlessTaken nofun (fun _ _ h => h) (fun _ _ => rfl) fun r => ?_
  cases r with
  | ok mb => exact blind_ret _
  | error e => cases e <;> exact blind_ret _

theorem blind_createRandom (d : String) (x : DateTime) (device : Option String) (n : Nat) :
    Blind (Addresses.createRandom app d x device n).run := by
  induction n with
  | zero => exact blind_ret _
  | succ n ih =>
    refine closed_bind closed_blind (blind_generateToken _) fun token => ?_
    refine closed_bind closed_blind (closed_blind.of_plain plain_randomLocalPart) fun l => ?_
    refine blind_unlessTaken nofun (fun _ _ h => h) (fun _ _ => rfl) fun r => ?_
    cases r with
    | ok mb => exact blind_ret _
    | error e =>
      cases e with
      | uniqueViolation => exact ih
      | subscriptionLimit | other => exact blind_ret _

theorem blind_claim (peer : IpAddr) (hs : HeaderMap) (raw : String) :
    Blind (CustomDomains.create.claim app peer hs raw).run := by
  unfold CustomDomains.create.claim
  split
  · exact blind_ret _
  · refine closed_bind closed_blind (closed_blind.of_plain (only_perform trivial)) fun now => ?_
    refine closed_bind closed_blind (closed_blind.of_plain (only_perform trivial)) fun ok => ?_
    split
    · exact blind_ret _
    · refine closed_bind closed_blind (blind_generateToken _) fun token => ?_
      refine closed_bind closed_blind (closed_blind.of_plain plain_generateTxtToken) fun txtToken => ?_
      refine blind_unlessTaken nofun (fun _ _ h => h) (fun _ _ => rfl) fun r => ?_
      cases r with
      | ok record => exact blind_ret _
      | error e => cases e <;> exact blind_ret _

end Api

/-! ## Saving -/

theorem blind_saveCopies (D : Deps) (m : NewMessage) (rcpts : List String) (hm : 0 ≤ m.rawSize) :
    Blind (Smtp.saveCopies D m rcpts) := by
  induction rcpts with
  | nil => exact blind_ret _
  | cons rcpt rcpts ih =>
    refine .call_exact ?_ (fun _ _ h => h) fun r => ?_
    · rintro _ _ ⟨⟩
      exact hm
    · cases r with
      | error e => exact blind_ret _
      | ok stored => exact .call_exact trivial (fun _ _ h => h) fun _ => ih

theorem taskClosed_blind (app : AppState) : TaskClosed app Blind where
  toClosed := closed_blind
  caught := blind_createCaught
  copies := blind_saveCopies app.deps
  custom := Api.blind_createCustom
  random := Api.blind_createRandom
  claim := Api.blind_claim

/-! ## All tasks -/

/-- The same outcome, but for the order of the attachments of a message that is shown. -/
def Outcome.Agrees : Outcome → Outcome → Prop
  | .response (.ok (.message m)), o => ∃ m', o = .response (.ok (.message m')) ∧ m.SameAs m'
  | o, o' => o = o'

theorem StoredMessage.SameAs.refl (m : StoredMessage) : m.SameAs m := ⟨.refl _, rfl⟩

theorem Outcome.Agrees.refl (o : Outcome) : o.Agrees o := by
  unfold Outcome.Agrees
  split
  · exact ⟨_, rfl, .refl _⟩
  · rfl

theorem like_getMessage {app : AppState} (a : String) (id : Uuid) :
    Like Eff.Sized Eff.Agrees Outcome.Agrees (Task.prog app (.http (.getMessage a id)))
      (Task.prog app (.http (.getMessage a id))) := by
  refine .call nofun fun r r' hr => ?_
  cases r with
  | error e =>
    cases r' with
    | error e' =>
      cases (hr : e = e')
      exact .ret rfl
    | ok _ => cases hr
  | ok o =>
    cases r' with
    | error _ => cases hr
    | ok o' =>
      obtain hm | _ := (hr : Option.Rel StoredMessage.SameAs o o')
      · exact .ret ⟨_, rfl, hm⟩
      · exact .ret rfl

/-- Over either store a task makes the same calls and ends alike. -/
theorem task_like (app : AppState) (t : Task) :
    Like Eff.Sized Eff.Agrees Outcome.Agrees (t.prog app) (t.prog app) := by
  by_cases ht : ∃ a id, t = .http (.getMessage a id)
  · obtain ⟨a, id, rfl⟩ := ht
    exact like_getMessage a id
  · have hblind := (taskClosed_blind app).prog t fun a id heq => ht ⟨a, id, heq⟩
    exact Like.mono hblind fun o _ ho => ho ▸ .refl o

end AnonyMail
