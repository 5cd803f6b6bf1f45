import AnonyMail.Lib.KeyedList
import AnonyMail.Store.Sql

/-! # The three ways to add a subscription

All three stores change the table of subscriptions by one upsert on the pair of mailbox and
endpoint. They differ in when they refuse: the in-memory store and SQLite look for the endpoint
first and count only for a new one, Postgres counts the other endpoints in any case. -/

namespace AnonyMail

open KeyedList

/-- The unique index of the table. -/
def PushSubscription.key (x : PushSubscription) : String × String := (x.mailboxAddress, x.endpoint)

/-- The arguments of `add_subscription`, but for the mailbox. -/
structure SubscribeArgs where
  kind : SubscriptionKind
  endpoint : String
  p256dh : String
  auth : String
  maxPerMailbox : Nat

namespace SubscribeArgs

variable (args : SubscribeArgs)

def refresh (x : PushSubscription) : PushSubscription :=
  { x with kind := args.kind, p256dh := args.p256dh, auth := args.auth }

def row (address : String) (id : Uuid) (now : DateTime) : PushSubscription :=
  ⟨id, address, args.kind, args.endpoint, args.p256dh, args.auth, now⟩

/-- The call of `add_subscription` on each store. -/
def postgres (address : String) (rows : List PushSubscription) (id : Uuid) (now : DateTime) :
    Except StoreError PushSubscription × List PushSubscription :=
  PostgresStore.addSubscription rows address args.kind args.endpoint args.p256dh args.auth
    args.maxPerMailbox id now

def sqlite (address : String) (rows : List PushSubscription) (id : Uuid) (now : DateTime) :
    Except StoreError PushSubscription × List PushSubscription :=
  SqliteStore.addSubscription rows address args.kind args.endpoint args.p256dh args.auth
    args.maxPerMailbox id now

def memory (address : String) (s : MemoryStore.Inner) (id : Uuid) (now : DateTime) :
    Except StoreError PushSubscription × MemoryStore.Inner :=
  MemoryStore.addSubscription s address args.kind args.endpoint args.p256dh args.auth
    args.maxPerMailbox id now

/-- The table after the upsert. -/
def upserted (address : String) (rows : List PushSubscription) (id : Uuid) (now : DateTime) :
    List PushSubscription :=
  upsert PushSubscription.key args.refresh (args.row address id now) rows

/-- The mailbox has `maxPerMailbox` subscriptions of other endpoints. -/
def Full (address : String) (rows : List PushSubscription) : Prop :=
  args.maxPerMailbox > 0 ∧ PostgresStore.countOthers rows address args.endpoint ≥ args.maxPerMailbox

/-- The endpoint is registered for the mailbox. -/
def Known (address : String) (rows : List PushSubscription) : Prop :=
  (address, args.endpoint) ∈ rows.map PushSubscription.key

instance (address : String) (rows : List PushSubscription) : Decidable (args.Full address rows) :=
  inferInstanceAs (Decidable (_ ∧ _))

instance (address : String) (rows : List PushSubscription) : Decidable (args.Known address rows) :=
  inferInstanceAs (Decidable (_ ∈ _))

end SubscribeArgs

variable {args : SubscribeArgs} {address endpoint : String} {rows rows' : List PushSubscription}
  {id : Uuid} {now : DateTime} {x : PushSubscription}

theorem key_refresh (x : PushSubscription) : (args.refresh x).key = x.key := rfl

theorem key_row : (args.row address id now).key = (address, args.endpoint) := rfl

/-! ## What each store does -/

section Stores

theorem find_key (h : Keyed PushSubscription.key rows) (hx : x ∈ rows)
    (hkey : x.key = (address, endpoint)) :
    (rows.find? fun x => x.mailboxAddress == address && x.endpoint == endpoint) = some x := by
  refine h.find?_eq (fun y _ => ?_) hx
  rw [hkey, PushSubscription.key, Prod.mk.injEq, Bool.and_eq_true, beq_iff_eq, beq_iff_eq]

theorem find_none (h : (address, endpoint) ∉ rows.map PushSubscription.key) :
    (rows.find? fun x => x.mailboxAddress == address && x.endpoint == endpoint) = none := by
  refine List.find?_eq_none.mpr fun x hx hp => h ?_
  simp only [Bool.and_eq_true, beq_iff_eq] at hp
  exact List.mem_map.mpr ⟨x, hx, by rw [PushSubscription.key, hp.1, hp.2]⟩

theorem upserted_of_known (h : args.Known address rows) : args.upserted address rows id now =
    rows.map fun x => if x.key = (address, args.endpoint) then args.refresh x else x :=
  upsert_of_mem h

theorem upserted_of_new (h : ¬args.Known address rows) :
    args.upserted address rows id now = rows ++ [args.row address id now] :=
  upsert_of_not_mem h

/-- An upsert returns the row that it writes. -/
structure Upserts (args : SubscribeArgs) (address : String) (rows : List PushSubscription)
    (id : Uuid) (now : DateTime) (out : Except StoreError PushSubscription × List PushSubscription) :
    Prop where
  table : out.2 = args.upserted address rows id now
  known : ∀ x ∈ rows, x.key = (address, args.endpoint) → out.1 = .ok (args.refresh x)
  new : ¬args.Known address rows → out.1 = .ok (args.row address id now)

theorem upserts_new (h : ¬args.Known address rows) : Upserts args address rows id now
    (.ok (args.row address id now), rows ++ [args.row address id now]) :=
  ⟨(upserted_of_new h).symm, fun x hx hkey => absurd (List.mem_map.mpr ⟨x, hx, hkey⟩) h, fun _ => rfl⟩

/-- A call that is refused under this condition, and performed otherwise. -/
structure Adds (args : SubscribeArgs) (address : String) (rows : List PushSubscription) (id : Uuid)
    (now : DateTime) (refused : Prop)
    (out : Except StoreError PushSubscription × List PushSubscription) : Prop where
  refuse : refused → out = (.error (.subscriptionLimit args.maxPerMailbox), rows)
  perform : ¬refused → Upserts args address rows id now out

theorem postgres_add (hkeys : Keyed PushSubscription.key rows) :
    Adds args address rows id now (args.Full address rows) (args.postgres address rows id now) := by
  rw [SubscribeArgs.postgres, PostgresStore.addSubscription]
  refine ⟨fun hfull => if_pos hfull, fun hfull => ?_⟩
  change Upserts args address rows id now (if args.Full address rows then _ else _)
  rw [if_neg hfull]
  by_cases hknown : args.Known address rows
  · obtain ⟨x, hx, hkey⟩ := List.mem_map.mp hknown
    rw [PostgresStore.upsert, find_key hkeys hx hkey]
    refine ⟨?_, fun y hy hy' => ?_, fun hnew => absurd hknown hnew⟩
    · rw [upserted_of_known hknown]
      simp only [PushSubscription.key, Prod.mk.injEq]
      rfl
    · rw [hkeys.eq hy hx (hy'.trans hkey.symm)]
      rfl
  · rw [PostgresStore.upsert, find_none hknown]
    exact upserts_new hknown

theorem countOthers_of_new (h : ¬args.Known address rows) :
    PostgresStore.countOthers rows address args.endpoint =
      (rows.filter fun x => x.mailboxAddress == address).length := by
  rw [PostgresStore.countOthers]
  congr 1
  refine List.filter_congr fun x hx => ?_
  by_cases haddress : x.mailboxAddress = address
  · have hne : x.endpoint ≠ args.endpoint := fun hend =>
      h (List.mem_map.mpr ⟨x, hx, by rw [PushSubscription.key, haddress, hend]⟩)
    simp [haddress, hne]
  · simp [haddress]

theorem sqlite_add (hkeys : Keyed PushSubscription.key rows) (hids : (rows.map (·.id)).Nodup) :
    Adds args address rows id now (¬args.Known address rows ∧ args.Full address rows)
      (args.sqlite address rows id now) := by
  rw [SubscribeArgs.sqlite, SqliteStore.addSubscription]
  by_cases hknown : args.Known address rows
  · obtain ⟨x, hx, hkey⟩ := List.mem_map.mp hknown
    rw [find_key hkeys hx hkey]
    refine ⟨fun h => absurd hknown h.1, fun _ => ⟨?_, fun y hy hy' => ?_, fun hnew => absurd hknown hnew⟩⟩
    · rw [upserted_of_known hknown]
      refine List.map_congr_left fun y hy => ?_
      have hiff : y.id = x.id ↔ y.key = (address, args.endpoint) := by
        refine ⟨fun h => ?_, fun h => ?_⟩
        · rw [List.inj_on_of_nodup_map hids hy hx h, hkey]
        · rw [hkeys.eq hy hx (h.trans hkey.symm)]
      simp only [hiff]
      rfl
    · rw [hkeys.eq hy hx (hy'.trans hkey.symm)]
      rfl
  · rw [find_none hknown]
    have hcount := @countOthers_of_new args address rows hknown
    refine ⟨fun h => if_pos (hcount ▸ h.2), fun h => ?_⟩
    simp only [if_neg (hcount ▸ fun hfull => h ⟨hknown, hfull⟩ : ¬(args.maxPerMailbox > 0 ∧
      (rows.filter fun x => x.mailboxAddress == address).length ≥ args.maxPerMailbox))]
    exact upserts_new hknown

theorem refresh_eq_map (hkeys : Keyed PushSubscription.key rows) :
    MemoryStore.refresh address args.endpoint args.kind args.p256dh args.auth rows =
      rows.map fun x => if x.key = (address, args.endpoint) then args.refresh x else x := by
  have hunique : rows.Pairwise fun x y => ¬(x.key = (address, args.endpoint) ∧
      y.key = (address, args.endpoint)) :=
    (List.pairwise_map.mp hkeys).imp fun hne h => hne (h.1.trans h.2.symm)
  rw [MemoryStore.refresh_eq, updateFirst_eq_map]
  · simp only [decide_eq_true_eq, PushSubscription.key, Prod.mk.injEq]
    rfl
  · refine hunique.imp fun hne hx hy => hne ?_
    simpa only [decide_eq_true_eq, PushSubscription.key, Prod.mk.injEq] using And.intro hx hy

theorem memory_add (s : MemoryStore.Inner) (hkeys : Keyed PushSubscription.key s.subscriptions) :
    Adds args address s.subscriptions id now
      (¬args.Known address s.subscriptions ∧ args.Full address s.subscriptions)
      ((args.memory address s id now).1, (args.memory address s id now).2.subscriptions) := by
  rw [SubscribeArgs.memory, MemoryStore.addSubscription]
  by_cases hknown : args.Known address s.subscriptions
  · obtain ⟨x, hx, hkey⟩ := List.mem_map.mp hknown
    rw [find_key hkeys hx hkey]
    refine ⟨fun h => absurd hknown h.1, fun _ => ⟨?_, fun y hy hy' => ?_, fun hnew => absurd hknown hnew⟩⟩
    · rw [upserted_of_known hknown]
      exact refresh_eq_map hkeys
    · rw [hkeys.eq hy hx (hy'.trans hkey.symm)]
      rfl
  · rw [find_none hknown]
    have hcount := @countOthers_of_new args address _ hknown
    refine ⟨fun h => ?_, fun h => ?_⟩
    · simp only [if_pos (hcount ▸ h.2 : args.maxPerMailbox > 0 ∧
        (s.subscriptions.filter fun x => x.mailboxAddress == address).length ≥ args.maxPerMailbox)]
    · simp only [if_neg (hcount ▸ fun hfull => h ⟨hknown, hfull⟩ : ¬(args.maxPerMailbox > 0 ∧
        (s.subscriptions.filter fun x => x.mailboxAddress == address).length ≥ args.maxPerMailbox))]
      exact upserts_new hknown

theorem Adds.keyed {refused : Prop} {out : Except StoreError PushSubscription × List PushSubscription}
    (h : Adds args address rows id now refused out) (hkeys : Keyed PushSubscription.key rows) :
    Keyed PushSubscription.key out.2 := by
  by_cases hr : refused
  · rw [h.refuse hr]
    exact hkeys
  · rw [(h.perform hr).table]
    exact hkeys.upsert key_refresh

/-- At most the new id is added to the ids of a table. -/
theorem Adds.ids {refused : Prop} {out : Except StoreError PushSubscription × List PushSubscription}
    (h : Adds args address rows id now refused out) :
    out.2.map (·.id) = rows.map (·.id) ∨ out.2.map (·.id) = rows.map (·.id) ++ [id] := by
  by_cases hr : refused
  · rw [h.refuse hr]
    exact .inl rfl
  · rw [(h.perform hr).table]
    by_cases hknown : args.Known address rows
    · left
      rw [upserted_of_known hknown, List.map_map]
      refine List.map_congr_left fun x _ => ?_
      simp only [Function.comp_apply]
      split <;> rfl
    · rw [upserted_of_new hknown, List.map_append]
      exact .inr rfl

end Stores
/-! ## The subscriptions of a mailbox -/

/-- The subscriptions of a mailbox as a client registers them. -/
def registrations (address : String) (rows : List PushSubscription) :
    List (String × SubscriptionKind × String × String) :=
  (rows.filter fun x => x.mailboxAddress == address).map fun x => (x.endpoint, x.kind, x.p256dh, x.auth)

/-- The mailbox has the same subscriptions in both tables. -/
def SameSubscriptions (address : String) (rows rows' : List PushSubscription) : Prop :=
  ∀ r, r ∈ registrations address rows ↔ r ∈ registrations address rows'

/-- A subscription of this endpoint that was there is returned and stored under its id. -/
def KeepsId (args : SubscribeArgs) (address : String) (rows : List PushSubscription)
    (sub : PushSubscription) (rows' : List PushSubscription) : Prop :=
  ∀ x ∈ rows, x.key = (address, args.endpoint) →
    sub.id = x.id ∧ ∃ y ∈ rows', y.key = x.key ∧ y.id = x.id

/-- Two stores refuse a registration alike, or perform it alike. -/
def Agree (args : SubscribeArgs) (address : String) (rows rows' : List PushSubscription)
    (out out' : Except StoreError PushSubscription × List PushSubscription) : Prop :=
  (out = (.error (.subscriptionLimit args.maxPerMailbox), rows) ∧
    out' = (.error (.subscriptionLimit args.maxPerMailbox), rows')) ∨
  ∃ sub sub', out.1 = .ok sub ∧ out'.1 = .ok sub' ∧ SameSubscriptions address out.2 out'.2 ∧
    KeepsId args address rows sub out.2 ∧ KeepsId args address rows' sub' out'.2

theorem mem_registrations {r} : r ∈ registrations address rows ↔
    ∃ x ∈ rows, x.mailboxAddress = address ∧ (x.endpoint, x.kind, x.p256dh, x.auth) = r := by
  simp only [registrations, List.mem_map, List.mem_filter, beq_iff_eq, and_assoc]

theorem mem_registrations_upserted {r} :
    r ∈ registrations address (args.upserted address rows id now) ↔
      r = (args.endpoint, args.kind, args.p256dh, args.auth) ∨
      r ∈ registrations address rows ∧ r.1 ≠ args.endpoint := by
  rw [mem_registrations, mem_registrations]
  constructor
  · rintro ⟨x, hx, haddress, rfl⟩
    by_cases hend : x.endpoint = args.endpoint
    · left
      have hkey : x.key = (args.row address id now).key := by
        rw [PushSubscription.key, haddress, hend, key_row]
      obtain rfl | ⟨y, -, hy, rfl⟩ := of_mem_upsert hx hkey
      · rfl
      · exact congrArg (·, args.kind, args.p256dh, args.auth) hend
    · have hne : x.key ≠ (args.row address id now).key := fun h => hend (congrArg Prod.snd h)
      exact .inr ⟨⟨x, (mem_upsert_of_ne key_refresh hne).mp hx, haddress, rfl⟩, hend⟩
  · rintro (rfl | ⟨⟨x, hx, haddress, rfl⟩, hend⟩)
    · by_cases hknown : args.Known address rows
      · obtain ⟨x, hx, hkey⟩ := List.mem_map.mp hknown
        refine ⟨args.refresh x, merge_mem_upsert hx hkey, congrArg Prod.fst hkey, ?_⟩
        exact congrArg (·, args.kind, args.p256dh, args.auth) (congrArg Prod.snd hkey)
      · rw [upserted_of_new hknown]
        exact ⟨_, List.mem_append_right _ (List.mem_singleton_self _), rfl, rfl⟩
    · have hne : x.key ≠ (args.row address id now).key := fun h => hend (congrArg Prod.snd h)
      exact ⟨x, (mem_upsert_of_ne key_refresh hne).mpr hx, haddress, rfl⟩

section Same

variable (hsame : SameSubscriptions address rows rows')

include hsame in
theorem SameSubscriptions.upserted {id' : Uuid} {now' : DateTime} :
    SameSubscriptions address (args.upserted address rows id now)
      (args.upserted address rows' id' now') := by
  intro r
  rw [mem_registrations_upserted, mem_registrations_upserted, hsame r]

include hsame in
theorem SameSubscriptions.known : args.Known address rows ↔ args.Known address rows' := by
  have hiff : ∀ rows, args.Known address rows ↔
      ∃ r ∈ registrations address rows, r.1 = args.endpoint := by
    intro rows
    simp only [SubscribeArgs.Known, List.mem_map, PushSubscription.key, Prod.mk.injEq,
      mem_registrations]
    constructor
    · rintro ⟨x, hx, haddress, hend⟩
      exact ⟨_, ⟨x, hx, haddress, rfl⟩, hend⟩
    · rintro ⟨_, ⟨x, hx, haddress, rfl⟩, hend⟩
      exact ⟨x, hx, haddress, hend⟩
  rw [hiff, hiff]
  exact exists_congr fun r => and_congr_left fun _ => hsame r

theorem nodup_registrations (h : Keyed PushSubscription.key rows) :
    (registrations address rows).Nodup := by
  refine (List.nodup_map_iff_inj_on (h.of_map _ |>.filter _)).mpr fun x hx y hy heq => ?_
  obtain ⟨hx, haddress⟩ := List.mem_filter.mp hx
  obtain ⟨hy, haddress'⟩ := List.mem_filter.mp hy
  have hend : x.endpoint = y.endpoint := congrArg Prod.fst heq
  refine h.eq hx hy ?_
  rw [PushSubscription.key, PushSubscription.key, eq_of_beq haddress, eq_of_beq haddress', hend]

theorem countOthers_eq : PostgresStore.countOthers rows address endpoint =
    (registrations address rows).countP fun r => r.1 != endpoint := by
  rw [PostgresStore.countOthers, registrations, List.countP_map, List.countP_filter,
    List.countP_eq_length_filter]
  congr 1
  exact List.filter_congr fun x _ => Bool.and_comm ..

include hsame in
theorem SameSubscriptions.full (hkeys : Keyed PushSubscription.key rows)
    (hkeys' : Keyed PushSubscription.key rows') :
    args.Full address rows ↔ args.Full address rows' := by
  have hperm := (List.perm_ext_iff_of_nodup (nodup_registrations hkeys)
    (nodup_registrations hkeys')).mpr hsame
  rw [SubscribeArgs.Full, SubscribeArgs.Full, countOthers_eq, countOthers_eq, hperm.countP_eq]

end Same
/-! ## Agreement -/

theorem Upserts.keepsId {out : Except StoreError PushSubscription × List PushSubscription}
    (h : Upserts args address rows id now out) {sub : PushSubscription} (hsub : out.1 = .ok sub) :
    KeepsId args address rows sub out.2 := by
  intro x hx hkey
  cases hsub.symm.trans (h.known x hx hkey)
  rw [h.table]
  exact ⟨rfl, _, merge_mem_upsert hx hkey, rfl, rfl⟩

theorem Upserts.exists_ok {out : Except StoreError PushSubscription × List PushSubscription}
    (h : Upserts args address rows id now out) : ∃ sub, out.1 = .ok sub := by
  by_cases hknown : args.Known address rows
  · obtain ⟨x, hx, hkey⟩ := List.mem_map.mp hknown
    exact ⟨_, h.known x hx hkey⟩
  · exact ⟨_, h.new hknown⟩

/-- A store that refuses an endpoint only if it is new agrees with Postgres on all calls but those
for a known endpoint of a mailbox that is full without it. -/
theorem agree_iff {id' : Uuid} {now' : DateTime}
    {out out' : Except StoreError PushSubscription × List PushSubscription}
    (hsame : SameSubscriptions address rows rows') (hkeys : Keyed PushSubscription.key rows)
    (hkeys' : Keyed PushSubscription.key rows')
    (hout : Adds args address rows id now (args.Full address rows) out)
    (hout' : Adds args address rows' id' now' (¬args.Known address rows' ∧ args.Full address rows')
      out') :
    Agree args address rows rows' out out' ↔
      ¬(args.Known address rows ∧ args.Full address rows) := by
  rw [← hsame.known, ← hsame.full hkeys hkeys'] at hout'
  by_cases hfull : args.Full address rows
  · have hout := hout.refuse hfull
    by_cases hknown : args.Known address rows
    · obtain ⟨sub', hsub'⟩ := (hout'.perform fun h => h.1 hknown).exists_ok
      refine iff_of_false ?_ fun h => h ⟨hknown, hfull⟩
      rintro (⟨-, h⟩ | ⟨sub, -, h, -⟩)
      · cases hsub'.symm.trans (congrArg Prod.fst h)
      · cases h.symm.trans (congrArg Prod.fst hout)
    · exact iff_of_true (.inl ⟨hout, hout'.refuse ⟨hknown, hfull⟩⟩) fun h => hknown h.1
  · have hout := hout.perform hfull
    have hout' := hout'.perform fun h => hfull h.2
    obtain ⟨sub, hsub⟩ := hout.exists_ok
    obtain ⟨sub', hsub'⟩ := hout'.exists_ok
    refine iff_of_true (.inr ⟨sub, sub', hsub, hsub', ?_, hout.keepsId hsub, hout'.keepsId hsub'⟩)
      fun h => hfull h.2
    rw [hout.table, hout'.table]
    exact hsame.upserted

/-- Stores that agree on a call have the same subscriptions afterwards. -/
theorem Agree.same {out out' : Except StoreError PushSubscription × List PushSubscription}
    (h : Agree args address rows rows' out out') (hsame : SameSubscriptions address rows rows') :
    SameSubscriptions address out.2 out'.2 := by
  obtain ⟨hout, hout'⟩ | ⟨_, _, -, -, h, -⟩ := h
  · rw [hout, hout']
    exact hsame
  · exact h

/-- The ids and clock readings that the three stores get for one call. -/
structure Draws where
  postgres : Uuid × DateTime
  sqlite : Uuid × DateTime
  memory : Uuid × DateTime

/-- The stores agree on each of these calls, made one after the other. -/
def AgreeAlong (address : String) : List (SubscribeArgs × Draws) → List PushSubscription →
    List PushSubscription → MemoryStore.Inner → Prop
  | [], _, _, _ => True
  | (args, draws) :: calls, rows, rows', s =>
    let out := args.postgres address rows draws.postgres.1 draws.postgres.2
    let out' := args.sqlite address rows' draws.sqlite.1 draws.sqlite.2
    let out'' := args.memory address s draws.memory.1 draws.memory.2
    Agree args address rows rows' out out' ∧
      Agree args address rows s.subscriptions out (out''.1, out''.2.subscriptions) ∧
      AgreeAlong address calls out.2 out'.2 out''.2

/-- No call refreshes an endpoint of a mailbox that is full without it. -/
def NoRefreshWhenFull (address : String) :
    List (SubscribeArgs × Draws) → List PushSubscription → Prop
  | [], _ => True
  | (args, draws) :: calls, rows =>
    ¬(args.Known address rows ∧ args.Full address rows) ∧ NoRefreshWhenFull address calls
      (args.postgres address rows draws.postgres.1 draws.postgres.2).2

/-- Whatever the state, the three stores agree on a sequence of registrations for a mailbox exactly
if none of them refreshes an endpoint while the others fill the mailbox. -/
theorem stores_agree_iff (address : String) (calls : List (SubscribeArgs × Draws))
    (rows rows' : List PushSubscription) (s : MemoryStore.Inner)
    (hsame : SameSubscriptions address rows rows')
    (hsame' : SameSubscriptions address rows s.subscriptions)
    (hkeys : Keyed PushSubscription.key rows) (hkeys' : Keyed PushSubscription.key rows')
    (hkeys'' : Keyed PushSubscription.key s.subscriptions)
    (hids : (rows'.map (·.id) ++ calls.map (·.2.sqlite.1)).Nodup) :
    AgreeAlong address calls rows rows' s ↔ NoRefreshWhenFull address calls rows := by
  induction calls generalizing rows rows' s with
  | nil => rfl
  | cons call calls ih =>
    obtain ⟨args, draws⟩ := call
    have hp := @postgres_add args address rows draws.postgres.1 draws.postgres.2 hkeys
    have hq := @sqlite_add args address rows' draws.sqlite.1 draws.sqlite.2 hkeys'
      (List.nodup_append.mp hids).1
    have hm := @memory_add args address draws.memory.1 draws.memory.2 s hkeys''
    have hids' : ((args.sqlite address rows' draws.sqlite.1 draws.sqlite.2).2.map (·.id) ++
        calls.map (·.2.sqlite.1)).Nodup := by
      rw [List.map_cons] at hids
      obtain heq | heq := hq.ids
      · rw [heq]
        exact hids.sublist ((List.sublist_cons_self ..).append_left _)
      · rw [heq, List.append_assoc]
        exact hids
    rw [AgreeAlong, NoRefreshWhenFull, agree_iff hsame hkeys hkeys' hp hq,
      agree_iff hsame' hkeys hkeys'' hp hm]
    refine ⟨fun ⟨hfirst, _, hrest⟩ => ⟨hfirst, ?_⟩, fun ⟨hfirst, hrest⟩ => ⟨hfirst, hfirst, ?_⟩⟩
    all_goals
      have hq' := ((agree_iff hsame hkeys hkeys' hp hq).mpr hfirst).same hsame
      have hm' := ((agree_iff hsame' hkeys hkeys'' hp hm).mpr hfirst).same hsame'
      have hrest' := ih _ _ _ hq' hm' (hp.keyed hkeys) (hq.keyed hkeys') (hm.keyed hkeys'') hids'
    · exact hrest'.mp hrest
    · exact hrest'.mpr hrest

/-- Two subscriptions, and a refresh of one of them under a cap of one. -/
def twoSubscriptions : List PushSubscription :=
  [⟨1, "a@example.com", .apns, "x", "", "", 0⟩, ⟨2, "a@example.com", .apns, "y", "", "", 0⟩]

def refreshFirst (maxPerMailbox : Nat) : SubscribeArgs × Draws :=
  (⟨.apns, "x", "", "", maxPerMailbox⟩, ⟨(3, 1), (3, 1), (3, 1)⟩)

def subscriptionStore (rows : List PushSubscription) : MemoryStore.Inner :=
  { MemoryStore.Inner.empty with subscriptions := rows }

theorem stores_agree_iff_two :
    AgreeAlong "a@example.com" [refreshFirst 2] twoSubscriptions twoSubscriptions
      (subscriptionStore twoSubscriptions) ↔
    NoRefreshWhenFull "a@example.com" [refreshFirst 2] twoSubscriptions :=
  stores_agree_iff "a@example.com" [refreshFirst 2] twoSubscriptions twoSubscriptions
    (subscriptionStore twoSubscriptions) (fun _ => .rfl) (fun _ => .rfl) (by decide) (by decide)
    (by decide) (by decide)

/-- Postgres refuses the refresh, the other stores perform it. -/
theorem not_stores_agree :
    ¬∀ (address : String) (calls : List (SubscribeArgs × Draws)) (rows rows' : List PushSubscription)
      (s : MemoryStore.Inner), SameSubscriptions address rows rows' →
      SameSubscriptions address rows s.subscriptions → Keyed PushSubscription.key rows →
      Keyed PushSubscription.key rows' → Keyed PushSubscription.key s.subscriptions →
      (rows'.map (·.id) ++ calls.map (·.2.sqlite.1)).Nodup → AgreeAlong address calls rows rows' s := by
  intro H
  obtain ⟨hagree, -⟩ := H "a@example.com" [refreshFirst 1] twoSubscriptions twoSubscriptions
    (subscriptionStore twoSubscriptions) (fun _ => .rfl) (fun _ => .rfl) (by decide) (by decide)
    (by decide) (by decide)
  obtain ⟨-, h⟩ | ⟨_, _, h, -⟩ := hagree
  · exact absurd (congrArg Prod.fst h) (by decide +kernel)
  · exact absurd h (by simp [twoSubscriptions, SubscribeArgs.postgres,
      PostgresStore.addSubscription, PostgresStore.countOthers])

end AnonyMail
