import AnonyMail.Store.Transactions
import AnonyMail.Verify.Subscriptions

/-! # The subscription cap under READ COMMITTED

A transaction counts the other subscriptions in one statement and adds its own in a later one. In
between, another transaction may commit a subscription that was not counted. -/

namespace AnonyMail.PostgresStore

open Calls Prog KeyedList

/-- The number of subscriptions of a mailbox. -/
def subscribed (address : String) (rows : List PushSubscription) : Nat :=
  (rows.filter fun x => x.mailboxAddress == address).length

variable {rows rows' l : List PushSubscription} {row : PushSubscription} {address endpoint : String}
  {k : String × String} {cap : Nat}

/-! ## The keys of the table say how many subscriptions there are -/

def keys (rows : List PushSubscription) : List (String × String) := rows.map PushSubscription.key

theorem subscribed_eq : subscribed address rows = (keys rows).countP (·.1 == address) := by
  rw [subscribed, keys, List.countP_map, List.countP_eq_length_filter]
  rfl

theorem countOthers_eq_countP : countOthers rows address endpoint =
    (keys rows).countP fun k => k.1 == address && k.2 != endpoint := by
  rw [countOthers, keys, List.countP_map, List.countP_eq_length_filter]
  rfl

/-- The other subscriptions are all there are if the endpoint is new. -/
theorem subscribed_of_new (h : (address, endpoint) ∉ keys rows) :
    subscribed address rows = countOthers rows address endpoint := by
  rw [subscribed_eq, countOthers_eq_countP]
  refine List.countP_congr fun k hk => ?_
  obtain ⟨a, e⟩ := k
  have hne : a = address → e ≠ endpoint := fun ha he => h (ha ▸ he ▸ hk)
  simpa using hne

theorem putRow_eq :
    putRow rows row = KeyedList.upsert PushSubscription.key (fun _ => row) row rows := by
  have hany : (rows.any fun x => x.mailboxAddress == row.mailboxAddress &&
      x.endpoint == row.endpoint) = true ↔ row.key ∈ rows.map PushSubscription.key := by
    simp only [List.any_eq_true, Bool.and_eq_true, beq_iff_eq, List.mem_map, PushSubscription.key,
      Prod.mk.injEq]
  rw [putRow, KeyedList.upsert]
  simp only [hany, PushSubscription.key, Prod.mk.injEq]

/-- Rows of one key add at most this key. -/
theorem keys_foldl_putRow (h : ∀ row ∈ l, row.key = k) :
    keys (l.foldl putRow rows) = keys rows ∨
      k ∉ keys rows ∧ keys (l.foldl putRow rows) = keys rows ++ [k] := by
  have hmap : ∀ rows row, keys (putRow rows row) =
      if row.key ∈ keys rows then keys rows else keys rows ++ [row.key] := by
    intro rows row
    rw [keys, putRow_eq]
    by_cases hmem : row.key ∈ keys rows
    · rw [if_pos hmem, upsert_of_mem hmem, List.map_map]
      refine List.map_congr_left fun x _ => ?_
      simp only [Function.comp_apply]
      split
      · next heq => exact heq.symm
      · rfl
    · rw [if_neg hmem, upsert_of_not_mem hmem, List.map_append, List.map_singleton]
      rfl
  induction l generalizing rows with
  | nil => exact .inl rfl
  | cons row l ih =>
    have hrow := h row List.mem_cons_self
    have ih := fun rows => @ih rows fun r hr => h r (List.mem_cons_of_mem _ hr)
    rw [List.foldl_cons]
    have hput := hmap rows row
    rw [hrow] at hput
    split at hput
    · rw [← hput]
      exact ih _
    · next hnew =>
      obtain heq | ⟨hnot, -⟩ := ih (putRow rows row)
      · exact .inr ⟨hnew, heq.trans hput⟩
      · rw [hput] at hnot
        exact absurd (List.mem_append_right _ (List.mem_singleton_self k)) hnot

/-! ## What a statement does -/

section Statements

variable {db db' : Database} {e : Statement} {ch : StatementChoice} {r : e.Ans}

def isCount : Statement → Bool
  | .countOthers .. => true
  | _ => false

theorem upsert_key {kind : SubscriptionKind} {p256dh auth : String} {id : Uuid} {now : DateTime} :
    (upsert rows address kind endpoint p256dh auth id now).1.key = (address, endpoint) := by
  rw [upsert]
  split
  · next row hfind =>
    have hp := List.find?_some hfind
    simp only [Bool.and_eq_true, beq_iff_eq] at hp
    rw [PushSubscription.key]
    exact Prod.ext hp.1 hp.2
  · rfl

/-- Only a commit changes what is committed. -/
theorem exec_committed (h : db.exec e ch = some (r, db')) :
    db'.committed = db.committed ∨ ∃ tx, e = .commit tx ∧ db'.committed = db.seenBy tx := by
  cases e <;> cases ch <;> simp only [Database.exec, Database.close] at h
  case commit.done => cases h; exact .inr ⟨_, rfl, rfl⟩
  case upsert.done =>
    split at h
    · cases h
    · cases h; exact .inl rfl
  all_goals cases h; exact .inl rfl

/-- Only an upsert writes a row, of its key and for its transaction. -/
theorem exec_written (h : db.exec e ch = some (r, db')) :
    ∀ w ∈ db'.written, w ∈ db.written ∨
      ∃ address kind endpoint p256dh auth, e = .upsert w.1 address kind endpoint p256dh auth ∧
        w.2.key = (address, endpoint) := by
  intro w hw
  cases e <;> cases ch <;> simp only [Database.exec, Database.close] at h
  case upsert.done tx address kind endpoint p256dh auth id now =>
    split at h
    · cases h
    · cases h
      obtain hw | hw := List.mem_append.mp hw
      · exact .inl hw
      · cases List.mem_singleton.mp hw
        exact .inr ⟨_, _, _, _, _, rfl, upsert_key⟩
  case begin.done | begin.fail | countOthers.done => cases h; exact .inl hw
  all_goals
    cases h
    exact .inl (List.mem_of_mem_filter hw)

theorem exec_nextTx (h : db.exec e ch = some (r, db')) : db.nextTx ≤ db'.nextTx := by
  cases e <;> cases ch <;> simp only [Database.exec, Database.close] at h
  case upsert.done =>
    split at h
    · cases h
    · cases h; exact Nat.le_refl _
  case begin.done => cases h; exact Nat.le_succ _
  all_goals cases h; exact Nat.le_refl _

end Statements

/-! ## A transaction alone -/

section Alone

variable {db db' : Database} {kind : SubscriptionKind} {p256dh auth : String} {maxPerMailbox : Nat}
  {tx : Nat} {tr : List (Event Statement.Ans)} {r : Except StoreError PushSubscription}

/-- The row that an upsert returns, put in its place, gives the table that the upsert gives. -/
theorem putRow_upsert (hkeys : Keyed PushSubscription.key rows) (id : Uuid) (now : DateTime) :
    putRow rows (upsert rows address kind endpoint p256dh auth id now).1 =
      (upsert rows address kind endpoint p256dh auth id now).2 := by
  have hkey := @upsert_key rows address endpoint kind p256dh auth id now
  rw [putRow_eq]
  by_cases hknown : (address, endpoint) ∈ rows.map PushSubscription.key
  · obtain ⟨x, hx, hxkey⟩ := List.mem_map.mp hknown
    rw [upsert_of_mem (hkey.symm ▸ hknown), hkey]
    rw [upsert, find_key hkeys hx hxkey]
    refine List.map_congr_left fun y hy => ?_
    simp only [PushSubscription.key, Prod.mk.injEq]
    split
    · next heq =>
      have hykey : y.key = (address, endpoint) := Prod.ext heq.1 heq.2
      rw [hkeys.eq hy hx (hykey.trans hxkey.symm)]
    · rfl
  · rw [upsert_of_not_mem (hkey.symm ▸ hknown), upsert, find_none hknown]

theorem insertSubscription_alone
    (h : Exec Database.exec db (insertSubscription tx address kind endpoint p256dh auth) tr db' r)
    (hkeys : Keyed PushSubscription.key db.committed) (hopen : db.written = [])
    (hr : r ≠ .error .other) :
    ∃ id now, r = .ok (upsert db.committed address kind endpoint p256dh auth id now).1 ∧
      db'.committed = (upsert db.committed address kind endpoint p256dh auth id now).2 := by
  obtain ⟨ch, row, db₁, _, hx, -, h⟩ := exec_call.mp h
  cases ch with
  | fail =>
    cases hx
    exact absurd (exec_ret.mp h).2.2 hr
  | done id now =>
    simp only [Database.exec, Database.locked, Database.seenBy, Database.writtenBy, hopen,
      List.any_nil, Bool.false_eq_true, if_false, List.filter_nil, List.map_nil, List.foldl_nil,
      Option.some.injEq, Prod.mk.injEq] at hx
    obtain ⟨rfl, rfl⟩ := hx
    obtain ⟨ch, res, db₂, _, hx, -, h⟩ := exec_call.mp h
    cases ch with
    | fail =>
      cases hx
      exact absurd (exec_ret.mp h).2.2 hr
    | done =>
      cases hx
      obtain ⟨-, rfl, rfl⟩ := exec_ret.mp h
      refine ⟨id, now, rfl, ?_⟩
      rw [← putRow_upsert hkeys]
      simp [Database.seenBy, Database.writtenBy]

/-- A transaction without company is the call of `add_subscription` as one step. -/
theorem addSubscriptionTx_alone (hkeys : Keyed PushSubscription.key db.committed)
    (hopen : db.written = [])
    (h : Exec Database.exec db
      (addSubscriptionTx address kind endpoint p256dh auth maxPerMailbox) tr db' r)
    (hr : r ≠ .error .other) :
    ∃ id now, (r, db'.committed) =
      addSubscription db.committed address kind endpoint p256dh auth maxPerMailbox id now := by
  obtain ⟨ch, tx, db₁, _, hx, -, h⟩ := exec_call.mp h
  cases ch with
  | fail =>
    cases hx
    exact absurd (exec_ret.mp h).2.2 hr
  | done =>
    cases hx
    change Exec _ _ (if maxPerMailbox > 0 then _ else _) _ _ _ at h
    by_cases hmax : maxPerMailbox > 0
    · rw [if_pos hmax] at h
      obtain ⟨ch, count, db₂, _, hx, -, h⟩ := exec_call.mp h
      cases ch with
      | fail =>
        cases hx
        exact absurd (exec_ret.mp h).2.2 hr
      | done =>
        simp only [Database.exec, Database.seenBy, Database.writtenBy, hopen, List.filter_nil,
          List.map_nil, List.foldl_nil, Option.some.injEq, Prod.mk.injEq] at hx
        obtain ⟨rfl, rfl⟩ := hx
        change Exec _ _ (if countOthers db.committed address endpoint ≥ maxPerMailbox then _ else _)
          _ _ _ at h
        by_cases hfull : countOthers db.committed address endpoint ≥ maxPerMailbox
        · rw [if_pos hfull] at h
          obtain ⟨ch, _, db₃, _, hx, -, h⟩ := exec_call.mp h
          cases hx
          obtain ⟨-, rfl, rfl⟩ := exec_ret.mp h
          exact ⟨0, 0, by rw [addSubscription, if_pos ⟨hmax, hfull⟩]; rfl⟩
        · rw [if_neg hfull] at h
          obtain ⟨id, now, rfl, hdb⟩ := insertSubscription_alone h hkeys rfl hr
          exact ⟨id, now, by rw [addSubscription, if_neg fun h => hfull h.2, hdb]⟩
    · rw [if_neg hmax] at h
      obtain ⟨id, now, rfl, hdb⟩ := insertSubscription_alone h hkeys hopen hr
      exact ⟨id, now, by rw [addSubscription, if_neg fun h => hmax h.1, hdb]⟩

end Alone

/-! ## The statements of a transaction, in order -/

/-- The calls that a transaction has made before each of its statements. -/
def TxProtocol (address : String) (cap : Nat) (t : Registration) (h : List (Event Statement.Ans)) :
    Statement → Prop
  | .begin => h = []
  | .countOthers tx a e => a = address ∧ e = t.endpoint ∧ h = [⟨.begin, some tx⟩]
  | .upsert tx a _ e _ _ => a = address ∧ e = t.endpoint ∧ ∃ n < cap,
    h = [⟨.begin, some tx⟩, ⟨.countOthers tx address t.endpoint, some n⟩]
  | .commit tx => ∃ n < cap, ∃ ev : Event Statement.Ans, isCount ev.1 = false ∧
    h = [⟨.begin, some tx⟩, ⟨.countOthers tx address t.endpoint, some n⟩, ev]
  | .rollback _ => True

theorem transaction_obeys (hcap : 0 < cap) (t : Registration) :
    Obeys (TxProtocol address cap t) (fun _ _ => True) []
      ((transactions address cap).prog t) := by
  refine ⟨rfl, fun tx => ?_⟩
  cases tx with
  | none => trivial
  | some tx =>
    simp only [if_pos hcap]
    refine ⟨⟨rfl, rfl, rfl⟩, fun count => ?_⟩
    cases count with
    | none => trivial
    | some count =>
      change Obeys _ _ _ (if count ≥ cap then _ else _)
      split
      · exact ⟨trivial, fun _ => trivial⟩
      · next hlt =>
        refine ⟨⟨rfl, rfl, count, Nat.lt_of_not_le hlt, rfl⟩, fun row => ?_⟩
        cases row with
        | none => trivial
        | some row =>
          refine ⟨⟨count, Nat.lt_of_not_le hlt, _, rfl, rfl⟩, fun r => ?_⟩
          cases r <;> trivial

/-! ## The cap -/

/-- Another subscription has been committed since the count of the process. -/
def overtaken (log : List (Entry Database Registration Statement.Ans)) (i : Nat) : Bool :=
  since (fun e => e.pid == i && isCount e.call)
    (fun e => e.before.committed.length < e.after.committed.length) log

/-- The next statement of the process commits a subscription with a new endpoint. -/
def commitsNew (c : TransactionConf) (i : Nat) : Bool :=
  match c.procs[i]? with
  | some ⟨_, _, .call (.commit tx) _⟩ => c.world.committed.length < (c.world.seenBy tx).length
  | _ => false

/-- No transaction that adds a subscription commits after another one has added a subscription
that it has not counted. -/
def notOvertaken (c : TransactionConf) : Move Registration StatementChoice Empty → Prop
  | .act i _ => commitsNew c i → overtaken c.log i = false
  | _ => True

instance : ∀ c m, Decidable (notOvertaken c m)
  | c, .act i _ => inferInstanceAs (Decidable (commitsNew c i → overtaken c.log i = false))
  | _, .spawn _ => .isTrue trivial
  | _, .env _ => .isTrue trivial

theorem overtaken_concat {log : List (Entry Database Registration Statement.Ans)}
    {e : Entry Database Registration Statement.Ans} {i : Nat}
    (hnot : e.pid ≠ i ∨ isCount e.call = false) : overtaken (log ++ [e]) i =
      (decide (e.before.committed.length < e.after.committed.length) || overtaken log i) := by
  have hstart : (e.pid == i && isCount e.call) = false := by
    obtain hne | hcount := hnot
    · rw [beq_eq_false_iff_ne.mpr hne, Bool.false_and]
    · rw [hcount, Bool.and_false]
  rw [overtaken, since_concat, hstart]
  rfl

abbrev TransactionProc := Proc Registration Statement.Ans (Except StoreError PushSubscription)

/-- What holds while no transaction is overtaken. -/
structure CapInv (address : String) (cap : Nat) (c : TransactionConf) : Prop where
  cap : subscribed address c.world.committed ≤ cap
  begun : ∀ p ∈ c.procs, ∀ tx, ⟨.begin, some tx⟩ ∈ p.hist → tx < c.world.nextTx
  unique : ∀ (i j : Nat) (p q : TransactionProc) tx, c.procs[i]? = some p → c.procs[j]? = some q →
    ⟨.begin, some tx⟩ ∈ p.hist → ⟨.begin, some tx⟩ ∈ q.hist → i = j
  written : ∀ w ∈ c.world.written, ∃ (i : Nat) (p : TransactionProc), c.procs[i]? = some p ∧
    ⟨.begin, some w.1⟩ ∈ p.hist ∧ 3 ≤ p.hist.length ∧ w.2.key = (address, p.tag.endpoint)
  counted : ∀ (i : Nat) (p : TransactionProc) tx n, c.procs[i]? = some p →
    ⟨.countOthers tx address p.tag.endpoint, some n⟩ ∈ p.hist → overtaken c.log i = false →
    countOthers c.world.committed address p.tag.endpoint = n

theorem CapInv.spawn {c : TransactionConf} (hinv : CapInv address cap c) (t : Registration)
    (rest : Transaction (Except StoreError PushSubscription)) :
    CapInv address cap { c with procs := c.procs ++ [⟨t, [], rest⟩] } := by
  refine ⟨hinv.cap, fun p hp tx htx => ?_, fun i j p q tx hi hj hp hq => ?_, fun w hw => ?_,
    fun i p tx n hi hn => ?_⟩
  · obtain hp | hp := List.mem_append.mp hp
    · exact hinv.begun p hp tx htx
    · cases List.mem_singleton.mp hp
      cases htx
  · obtain hi | rfl := System.getElem?_spawn hi
    · obtain hj | rfl := System.getElem?_spawn hj
      · exact hinv.unique i j p q tx hi hj hp hq
      · cases hq
    · cases hp
  · obtain ⟨i, p, hi, h⟩ := hinv.written w hw
    exact ⟨i, p, by rw [List.getElem?_append_left (List.getElem?_eq_some_iff.mp hi).1, hi], h⟩
  · obtain hi | rfl := System.getElem?_spawn hi
    · exact hinv.counted i p tx n hi hn
    · cases hn

theorem begin_answer {db db' : Database} {ch : StatementChoice} {tx : Nat}
    (h : db.exec .begin ch = some (some tx, db')) : tx = db.nextTx ∧ db'.nextTx = db.nextTx + 1 := by
  cases ch with
  | done => cases h; exact ⟨rfl, rfl⟩
  | fail => cases h

section Act

variable {c : TransactionConf} {i : Nat} {t : Registration} {hist : List (Event Statement.Ans)}
  {e : Statement} {k : e.Ans → Transaction (Except StoreError PushSubscription)}
  {ch : StatementChoice} {r : e.Ans} {w : Database}

/-- A transaction writes rows of one key only. -/
theorem CapInv.writtenBy_key (hinv : CapInv address cap c) {p : TransactionProc} {tx : Nat}
    (hi : c.procs[i]? = some p) (hbegin : ⟨.begin, some tx⟩ ∈ p.hist) :
    ∀ row ∈ c.world.writtenBy tx, row.key = (address, p.tag.endpoint) ∧ 3 ≤ p.hist.length := by
  intro row hrow
  obtain ⟨w, hw, rfl⟩ := List.mem_map.mp hrow
  obtain ⟨hw, heq⟩ := List.mem_filter.mp hw
  obtain ⟨j, q, hj, hq, hlen, hkey⟩ := hinv.written w hw
  obtain rfl := hinv.unique i j p q tx hi hj hbegin (eq_of_beq heq ▸ hq)
  cases hi.symm.trans hj
  exact ⟨hkey, hlen⟩

variable (hinv : CapInv address cap c) (hi : c.procs[i]? = some ⟨t, hist, .call e k⟩)
  (hlaw : TxProtocol address cap t hist e) (hx : c.world.exec e ch = some (r, w))

include hinv hi hx in
theorem CapInv.begun_act : ∀ p ∈ c.procs.set i ⟨t, hist ++ [⟨e, r⟩], k r⟩, ∀ tx,
    ⟨.begin, some tx⟩ ∈ p.hist → tx < w.nextTx := by
  intro p hp tx htx
  have hle := exec_nextTx hx
  obtain hp | rfl := System.mem_act hp
  · exact Nat.lt_of_lt_of_le (hinv.begun p hp tx htx) hle
  · obtain htx | htx := List.mem_append.mp htx
    · exact Nat.lt_of_lt_of_le (hinv.begun _ (List.mem_of_getElem? hi) tx htx) hle
    · cases List.mem_singleton.mp htx
      obtain ⟨rfl, hnext⟩ := begin_answer hx
      omega

include hinv hi hx in
theorem CapInv.unique_act : ∀ (j j' : Nat) (p q : TransactionProc) tx,
    (c.procs.set i ⟨t, hist ++ [⟨e, r⟩], k r⟩)[j]? = some p →
    (c.procs.set i ⟨t, hist ++ [⟨e, r⟩], k r⟩)[j']? = some q →
    ⟨.begin, some tx⟩ ∈ p.hist → ⟨.begin, some tx⟩ ∈ q.hist → j = j' := by
  -- an id that is new has not been given to another transaction
  have hnew : ∀ {j q tx}, c.procs[j]? = some q → ⟨.begin, some tx⟩ ∈ q.hist →
      ⟨.begin, some tx⟩ ∈ hist ++ [⟨e, r⟩] → j = i := by
    intro j q tx hj hq hmem
    obtain hmem | hmem := List.mem_append.mp hmem
    · exact hinv.unique j i q _ tx hj hi hq hmem
    · cases List.mem_singleton.mp hmem
      obtain ⟨rfl, -⟩ := begin_answer hx
      exact absurd (hinv.begun q (List.mem_of_getElem? hj) _ hq) (Nat.lt_irrefl _)
  intro j j' p q tx hj hj' hp hq
  obtain ⟨hji, rfl⟩ | ⟨-, hj₀⟩ := System.getElem?_act hj
  · obtain ⟨hji', -⟩ | ⟨-, hj₀'⟩ := System.getElem?_act hj'
    · exact hji.trans hji'.symm
    · exact hji.trans (hnew hj₀' hq hp).symm
  · obtain ⟨hji', rfl⟩ | ⟨-, hj₀'⟩ := System.getElem?_act hj'
    · exact (hnew hj₀ hp hq).trans hji'.symm
    · exact hinv.unique j j' p q tx hj₀ hj₀' hp hq

include hinv hi hlaw hx in
theorem CapInv.written_act : ∀ x ∈ w.written, ∃ (j : Nat) (p : TransactionProc),
    (c.procs.set i ⟨t, hist ++ [⟨e, r⟩], k r⟩)[j]? = some p ∧ ⟨.begin, some x.1⟩ ∈ p.hist ∧
      3 ≤ p.hist.length ∧ x.2.key = (address, p.tag.endpoint) := by
  have hlt := (List.getElem?_eq_some_iff.mp hi).1
  intro x hx'
  obtain hold | ⟨a, kind, endpoint, p256dh, auth, rfl, hkey⟩ := exec_written hx x hx'
  · obtain ⟨j, p, hj, hp, hlen, hkey⟩ := hinv.written x hold
    by_cases hij : i = j
    · subst hij
      cases hi.symm.trans hj
      refine ⟨i, _, List.getElem?_set_self hlt, List.mem_append_left _ hp, ?_, hkey⟩
      exact hlen.trans (List.sublist_append_left ..).length_le
    · exact ⟨j, p, by rw [List.getElem?_set_ne hij, hj], hp, hlen, hkey⟩
  · obtain ⟨rfl, rfl, n, -, rfl⟩ := hlaw
    exact ⟨i, _, List.getElem?_set_self hlt, List.mem_cons_self, by simp, hkey⟩

include hinv hi hlaw hx in
/-- While no key is added, the counts stay right. -/
theorem CapInv.counted_act (hkeys : keys w.committed = keys c.world.committed) :
    ∀ (j : Nat) (p : TransactionProc) tx n,
      (c.procs.set i ⟨t, hist ++ [⟨e, r⟩], k r⟩)[j]? = some p →
      ⟨.countOthers tx address p.tag.endpoint, some n⟩ ∈ p.hist →
      overtaken (c.log ++ [⟨i, t, c.world, e, r, w⟩]) j = false →
      countOthers w.committed address p.tag.endpoint = n := by
  intro j p tx n hj hn hover
  rw [countOthers_eq_countP, hkeys, ← countOthers_eq_countP]
  obtain ⟨rfl, rfl⟩ | ⟨hne, hj⟩ := System.getElem?_act hj
  · obtain hn | hn := List.mem_append.mp hn
    · -- the count has been made before, so this statement is another one
      have hcount : isCount e = false := by
        cases e
        case countOthers =>
          obtain ⟨-, -, rfl⟩ := hlaw
          cases List.mem_singleton.mp hn
        all_goals rfl
      rw [overtaken_concat (.inr hcount), Bool.or_eq_false_iff] at hover
      exact hinv.counted j ⟨t, hist, .call e k⟩ tx n hi hn hover.2
    · have heq : (⟨.countOthers tx address t.endpoint, some n⟩ : Event Statement.Ans) = ⟨e, r⟩ :=
        List.mem_singleton.mp hn
      cases heq
      obtain ⟨-, -, rfl⟩ := hlaw
      cases ch with
      | fail => cases hx
      | done id now =>
        cases hx
        have hnone : c.world.writtenBy tx = [] := List.eq_nil_iff_forall_not_mem.mpr fun row hrow =>
          absurd (hinv.writtenBy_key hi (List.mem_singleton_self _) row hrow).2 (by simp)
        rw [Database.seenBy, hnone]
        rfl
  · rw [overtaken_concat (.inl (Ne.symm hne)), Bool.or_eq_false_iff] at hover
    exact hinv.counted j p tx n hj hn hover.2

include hinv hi hlaw hx in
theorem CapInv.act (hok : notOvertaken c (.act i ch)) :
    CapInv address cap
      ⟨w, c.procs.set i ⟨t, hist ++ [⟨e, r⟩], k r⟩, c.log ++ [⟨i, t, c.world, e, r, w⟩]⟩ := by
  suffices hcap : subscribed address w.committed ≤ cap ∧
      (keys w.committed = keys c.world.committed ∨ isCount e = false ∧
        c.world.committed.length < w.committed.length) by
    refine ⟨hcap.1, hinv.begun_act hi hx, hinv.unique_act hi hx, hinv.written_act hi hlaw hx, ?_⟩
    obtain hkeys | ⟨hcount, hgrew⟩ := hcap.2
    · exact hinv.counted_act hi hlaw hx hkeys
    · intro j p tx n _ _ hover
      rw [overtaken_concat (.inr hcount), decide_eq_true hgrew] at hover
      cases hover
  obtain hsame | ⟨tx, rfl, hcommit⟩ := exec_committed hx
  · rw [hsame]
    exact ⟨hinv.cap, .inl rfl⟩
  · obtain ⟨n, hn, ev, -, rfl⟩ := hlaw
    have hrows : ∀ row ∈ c.world.writtenBy tx, row.key = (address, t.endpoint) := fun row hrow =>
      (hinv.writtenBy_key hi List.mem_cons_self row hrow).1
    rw [hcommit]
    obtain hkeys | ⟨hnew, hkeys⟩ := @keys_foldl_putRow c.world.committed _ _ hrows
    · rw [Database.seenBy, subscribed_eq, hkeys, ← subscribed_eq]
      exact ⟨hinv.cap, .inl rfl⟩
    · have hlen := congrArg List.length hkeys
      rw [keys, keys, List.length_append, List.length_map, List.length_map,
        List.length_singleton] at hlen
      have hgrew : c.world.committed.length < (c.world.seenBy tx).length := by
        rw [Database.seenBy]
        omega
      have hover := hok (by rw [commitsNew, hi]; exact decide_eq_true hgrew)
      have hcounted := hinv.counted i _ tx n hi (by simp) hover
      refine ⟨?_, .inr ⟨rfl, hgrew⟩⟩
      rw [Database.seenBy, subscribed_eq, hkeys, List.countP_append, ← subscribed_eq,
        subscribed_of_new hnew, hcounted, List.countP_singleton, if_pos (beq_self_eq_true address)]
      exact hn

end Act

/-- While no transaction that adds a subscription is overtaken by another one, the mailbox has at
most as many subscriptions as the cap admits. -/
theorem subscription_cap (address : String) (cap : Nat) (hcap : 0 < cap)
    (rows : List PushSubscription) (hrows : subscribed address rows ≤ cap) (c : TransactionConf)
    (h : (transactions address cap).Reach notOvertaken (System.init ⟨rows, [], 0⟩) c) :
    subscribed address c.world.committed ≤ cap := by
  refine (h.invariant (I := CapInv address cap) ?_ fun {c c' m} hreach hinv hok hs => ?_).cap
  · exact ⟨hrows, by simp [System.init], by simp [System.init], by simp [System.init],
      by simp [System.init]⟩
  · obtain ⟨t, -, rfl⟩ | ⟨i, ch, t, hist, e, k, r, w, rfl, hi, hx, rfl⟩ | ⟨x, -⟩ :=
      System.step_cases hs
    · exact hinv.spawn t _
    · have hlaw := hreach.lawful (transaction_obeys hcap) _ (List.mem_of_getElem? hi)
      exact hinv.act hi hlaw.1 hx hok
    · cases x

/-- Two clients register at once: both count before either commits. -/
def twoAtOnce : List (Move Registration StatementChoice Empty) :=
  [.spawn ⟨.apns, "x", "", ""⟩, .spawn ⟨.apns, "y", "", ""⟩, .act 0 (.done 1 0), .act 1 (.done 2 0),
    .act 0 (.done 1 0), .act 1 (.done 2 0), .act 0 (.done 1 0), .act 1 (.done 2 0),
    .act 0 (.done 1 0), .act 1 (.done 2 0)]

/-- One after the other, the second client is refused. -/
def oneByOne : List (Move Registration StatementChoice Empty) :=
  [.spawn ⟨.apns, "x", "", ""⟩, .spawn ⟨.apns, "y", "", ""⟩, .act 0 (.done 1 0), .act 0 (.done 1 0),
    .act 0 (.done 1 0), .act 0 (.done 1 0), .act 1 (.done 2 0), .act 1 (.done 2 0)]

theorem not_subscription_cap :
    ¬∀ (address : String) (cap : Nat) (rows : List PushSubscription), 0 < cap →
      Keyed PushSubscription.key rows → subscribed address rows ≤ cap → ∀ c : TransactionConf,
      (transactions address cap).Reach (fun _ _ => True) (System.init ⟨rows, [], 0⟩) c →
      subscribed address c.world.committed ≤ cap := by
  intro H
  have hrun : ((transactions "a@example.com" 1).run (fun _ _ => True) (System.init ⟨[], [], 0⟩)
      twoAtOnce).any fun c => 1 < subscribed "a@example.com" c.world.committed := by
    decide +kernel
  obtain ⟨c, hc, htwo⟩ := System.Reach.exists_of_run hrun
  exact absurd (H "a@example.com" 1 [] Nat.one_pos List.nodup_nil (Nat.zero_le 1) c hc)
    (Nat.not_le.mpr (of_decide_eq_true htwo))

theorem subscription_cap_one_by_one :
    ∃ c : TransactionConf, c.world.committed ≠ [] ∧ subscribed "a@example.com" c.world.committed ≤ 1 := by
  have hrun : ((transactions "a@example.com" 1).run notOvertaken (System.init ⟨[], [], 0⟩)
      oneByOne).any fun c => c.world.committed ≠ [] := by
    decide +kernel
  obtain ⟨c, hc, hne⟩ := System.Reach.exists_of_run hrun
  exact ⟨c, of_decide_eq_true hne,
    subscription_cap "a@example.com" 1 Nat.one_pos [] (Nat.zero_le 1) c hc⟩

end AnonyMail.PostgresStore
