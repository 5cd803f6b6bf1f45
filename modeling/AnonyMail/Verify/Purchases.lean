import AnonyMail.RevenueCat
import AnonyMail.Verify.ClientTokens
import AnonyMail.Verify.Frames

/-! # The purchase verifier at work

The server with its verifier is one of the servers that `server` stands for. Each verdict that it
settles on was formed on a response and recorded at once, and a cached one bears the time at which
it was recorded. -/

namespace AnonyMail

open Calls Prog

namespace VerdictCache

variable {cache : VerdictCache} {id id' : String} {pro : Bool} {now t : Instant}

theorem lookup_remember {v : Bool × Instant}
    (h : (cache.remember id pro now).lookup id' = some v) :
    (id' = id ∧ v = (pro, now)) ∨ cache.lookup id' = some v := by
  unfold remember at h
  by_cases hid : id' = id
  · subst hid
    rw [AList.lookup_insert] at h
    exact .inl ⟨rfl, (Option.some.inj h).symm⟩
  · rw [AList.lookup_insert_ne hid] at h
    split at h
    · rw [HashMap.lookup_retain] at h
      exact .inr (Option.filter_eq_some_iff.mp h).1
    · exact .inr h

theorem cached_eq_some (h : cache.cached id now = some pro) :
    ∃ t, cache.lookup id = some (pro, t) ∧ now - t < ttl := by
  obtain ⟨⟨_, t⟩, hfilter, rfl⟩ := Option.map_eq_some_iff.mp h
  obtain ⟨hlookup, hlt⟩ := Option.filter_eq_some_iff.mp hfilter
  exact ⟨t, hlookup, of_decide_eq_true hlt⟩

end VerdictCache

namespace Purchases

abbrev Hist := List (Event Eff.Ans)

/-- A verdict is remembered right after it was formed. -/
def Remembers (entitlementId : String) (h : Hist) : Eff → Prop
  | .remember id pro => ∃ h₀ body t, h = h₀ ++ [⟨.subscriber id, some body⟩, ⟨.base .now, t⟩] ∧
    pro = entitlementActive body entitlementId t
  | _ => True

/-- The verifier settles on the verdict pro. -/
def IsVerdict (id : String) (ev : Event Eff.Ans) : Prop :=
  ev = ⟨.cached id, some true⟩ ∨ ev = ⟨.remember id true, ()⟩

variable {entitlementId : String} {h : Hist}

theorem carryOut_obeys (e : AnonyMail.Eff) :
    Obeys (Remembers entitlementId) (fun _ _ => True) h (carryOut entitlementId e) := by
  cases e with
  | isPro id =>
    refine ⟨trivial, fun found => ?_⟩
    cases found with
    | some pro => trivial
    | none =>
      refine ⟨trivial, fun r => ?_⟩
      cases r with
      | none => trivial
      | some body =>
        refine ⟨trivial, fun t => ⟨⟨h ++ [⟨.cached id, none⟩], body, t, ?_, rfl⟩, fun _ => trivial⟩⟩
        rw [List.append_assoc, List.append_assoc, List.append_assoc]
        rfl
  | _ => exact ⟨trivial, fun _ => trivial⟩

theorem isPro_true {id : String} {tr : Hist} (hr : Runs (isPro entitlementId id) tr (some true)) :
    ∃ tr₀ ev, tr = tr₀ ++ [ev] ∧ IsVerdict id ev := by
  obtain ⟨found, tr₁, rfl, h₁⟩ := runs_call.mp hr
  cases found with
  | some pro =>
    obtain ⟨rfl, hpro⟩ := runs_ret.mp h₁
    cases hpro
    exact ⟨[], _, rfl, .inl rfl⟩
  | none =>
    obtain ⟨r, tr₂, rfl, h₂⟩ := runs_call.mp h₁
    cases r with
    | none => cases (runs_ret.mp h₂).2
    | some body =>
      obtain ⟨t, tr₃, rfl, h₃⟩ := runs_call.mp h₂
      obtain ⟨_, tr₄, rfl, h₄⟩ := runs_call.mp h₃
      obtain ⟨rfl, hpro⟩ := runs_ret.mp h₄
      refine ⟨[_, _, _], _, rfl, .inr ?_⟩
      rw [← Option.some.inj hpro]

/-- As `AnonyMail.Minted`, with the verdict as the verifier gave it. -/
structure Minted (app : AppState) (h : Hist) (r : Api.ClientTokenResponse) : Prop where
  intro ::
  signed : ∃ h₀ m claims, h = h₀ ++ [⟨.base .now, m⟩] ∧ Signs app m claims r.clientToken ∧
    (claims.tier = .pro → ∃ h₁ id ev, h₀ = h₁ ++ [ev] ∧ IsVerdict id ev)

theorem minted_of_carries {app : AppState} {h₀ : AnonyMail.Hist} {r : Api.ClientTokenResponse}
    (H : AnonyMail.Minted app h₀ r) (hc : Carries (carryOut entitlementId) h₀ h) :
    Minted app h r := by
  obtain ⟨h₁, m, claims, rfl, hsigns, hpro⟩ := H.signed
  obtain ⟨h', tr, rfl, hc', hnow⟩ := hc.last
  obtain ⟨m', tr', rfl, hret⟩ := runs_call.mp hnow
  obtain ⟨rfl, hm⟩ := runs_ret.mp hret
  cases hm
  refine ⟨h', _, claims, rfl, hsigns, fun htier => ?_⟩
  obtain ⟨h₂, id, rfl⟩ := hpro htier
  obtain ⟨h₃, tr, rfl, -, hverdict⟩ := hc'.last
  obtain ⟨tr, ev, rfl, hev⟩ := isPro_true hverdict
  exact ⟨h₃ ++ tr, id, ev, by rw [List.append_assoc], hev⟩

/-- The verifier is one of those that `server` leaves open. -/
theorem takesEffect_carryOut (app : AppState) (e : AnonyMail.Eff) :
    System.TakesEffect (server app) (purchases app entitlementId) World.server e
      (carryOut entitlementId e) := by
  have hbase : ∀ e, System.TakesEffect (server app) (purchases app entitlementId) World.server e
      (call (.base e)) := by
    intro e w ch r w' hx
    cases ch with
    | base ch =>
      obtain ⟨⟨r', server⟩, hbase, heq⟩ := Option.map_eq_some_iff.mp hx
      cases heq
      exact .inl ⟨r, ch, rfl, hbase⟩
    | subscriber => cases hx
  cases e with
  | isPro id =>
    intro w ch found w' hx
    cases hx
    generalize w.cache.cached id w.server.instant = found
    cases found with
    | some pro => exact .inl ⟨some pro, .purchase (some pro), rfl, rfl⟩
    | none =>
      refine .inr ⟨rfl, ?_⟩
      intro w ch r w' hx
      cases ch with
      | base => cases hx
      | subscriber r =>
        cases hx
        cases r with
        | none => exact .inl ⟨none, .purchase none, rfl, rfl⟩
        | some body =>
          refine .inr ⟨rfl, ?_⟩
          intro w ch t w' hx
          cases ch with
          | subscriber => cases hx
          | base ch =>
            cases hx
            refine .inr ⟨rfl, ?_⟩
            intro w ch _ w' hx
            cases hx
            exact .inl ⟨_, .purchase (some _), rfl, rfl⟩
  | _ => exact hbase _

/-- A run of the server with its verifier is a run of `server`, apart from the cache. -/
theorem server_of_reach {app : AppState} {ok : ServerConf → ServerMove → Prop} {c : ServerConf}
    {start : DateTime}
    (h : (purchases app entitlementId).Reach ok (System.init (World.start start)) c) :
    ∃ c₀, (server app).Reach (fun _ _ => True) (System.init (AnonyMail.World.start start)) c₀ ∧
      System.Refines (server app) (purchases app entitlementId) World.server
        (carryOut entitlementId) c₀ c := by
  refine h.implement (fun _ => rfl) (takesEffect_carryOut app) ?_
  rintro ⟨world, procs, log⟩ w n w' henv hworld
  cases henv
  cases hworld
  -- one move for each of the two clocks
  have hclock : (server app).Reach (fun _ _ => True) ⟨w.server, procs, log⟩
      ⟨w.server.tick (.clock (w.server.clock + n)), procs, log⟩ :=
    .tail .refl trivial (m := .env (.clock (w.server.clock + n))) rfl
  exact hclock.tail trivial (m := .env (.instant n)) rfl

theorem task_obeys (app : AppState) (t : Task) : Obeys (Remembers entitlementId)
    (fun h o => ∀ r, Outcome.clientToken o = some r → Minted app h r) []
    ((purchases app entitlementId).prog t) :=
  (task_mints app t).implement .nil (fun _ _ e _ _ => carryOut_obeys e)
    fun _ _ _ hc H r hr => minted_of_carries (H r hr) hc

/-! ## The cache over a run -/

section
variable {app : AppState} {ok : ServerConf → ServerMove → Prop} {c : ServerConf} {start : DateTime}

theorem exec_clocks_eq {w w' : World} {e : Eff} {r : e.Ans} {ch : Choice}
    (h : exec app w e ch = some (r, w')) :
    w'.server.clock = w.server.clock ∧ w'.server.instant = w.server.instant := by
  cases e with
  | base e =>
    cases ch with
    | base ch =>
      obtain ⟨⟨r', server⟩, hx, heq⟩ := Option.map_eq_some_iff.mp h
      cases heq
      exact AnonyMail.exec_clocks_eq hx
    | subscriber => cases h
  | cached | remember => cases h; exact ⟨rfl, rfl⟩
  | subscriber =>
    cases ch with
    | base => cases h
    | subscriber => cases h; exact ⟨rfl, rfl⟩

/-- Both clocks show the same time. -/
theorem clock_of_reach
    (h : (purchases app entitlementId).Reach ok (System.init (World.start start)) c) :
    c.world.server.clock = start + c.world.server.instant := by
  induction h with
  | refl => exact (Int.add_zero start).symm
  | @tail c _ _ _ _ hs ih =>
    obtain ⟨t, -, rfl⟩ | ⟨i, ch, t, hist, e, k, r, w, -, -, hx, rfl⟩ | ⟨n, w, -, hw, rfl⟩ :=
      System.step_cases hs
    · exact ih
    · obtain ⟨hclock, hinstant⟩ := exec_clocks_eq hx
      rw [hclock, hinstant, ih]
    · cases hw
      show c.world.server.clock + (n : Int) = start + ((c.world.server.instant + n : Nat) : Int)
      rw [ih, Int.natCast_add, Int.add_assoc]

/-- Each verdict pro in the cache was remembered in the run, at the time that it bears. -/
theorem remembered_of_reach
    (h : (purchases app entitlementId).Reach ok (System.init (World.start start)) c) (id : String)
    (t : Instant) (hcache : c.world.cache.lookup id = some (true, t)) :
    ∃ e ∈ c.log, e.call = .remember id true ∧ e.before.server.instant = t := by
  induction h with
  | refl => cases hcache
  | @tail c c' m hc hok hs ih =>
    obtain ⟨t', -, rfl⟩ | ⟨i, ch, t', hist, e, k, r, w, -, -, hx, rfl⟩ | ⟨n, w, -, hw, rfl⟩ :=
      System.step_cases hs
    · exact ih hcache
    · have hold : c.world.cache.lookup id = some (true, t) ∨
          e = .remember id true ∧ c.world.server.instant = t := by
        cases e with
        | base e =>
          cases ch with
          | base ch =>
            obtain ⟨⟨r', server⟩, -, heq⟩ := Option.map_eq_some_iff.mp hx
            cases heq
            exact .inl hcache
          | subscriber => cases hx
        | cached => cases hx; exact .inl hcache
        | subscriber =>
          cases ch with
          | base => cases hx
          | subscriber => cases hx; exact .inl hcache
        | remember id' pro =>
          cases hx
          obtain ⟨rfl, heq⟩ | hcache := VerdictCache.lookup_remember hcache
          · cases heq
            exact .inr ⟨rfl, rfl⟩
          · exact .inl hcache
      obtain hold | ⟨he, ht⟩ := hold
      · obtain ⟨e', he', h⟩ := ih hold
        exact ⟨e', List.mem_append_left _ he', h⟩
      · exact ⟨_, List.mem_append_right _ (List.mem_singleton_self _), he, ht⟩
    · cases hw
      exact ih hcache

/-- What a process was about to do, with what it had done. -/
theorem pending_of_log {l l' : List ServerEntry} {e : ServerEntry}
    (h : (purchases app entitlementId).Reach ok (System.init (World.start start)) c)
    (hlog : c.log = l ++ e :: l') :
    ∃ c₁, (purchases app entitlementId).Reach ok (System.init (World.start start)) c₁ ∧
      c₁.log = l ∧ c₁.world = e.before ∧ (∃ ch, ok c₁ (.act e.pid ch) ∧
        exec app e.before e.call ch = some (e.answer, e.after)) ∧
      ∃ k, c₁.procs[e.pid]? = some ⟨e.tag, System.callsOf e.pid l, .call e.call k⟩ := by
  obtain ⟨c₁, c₂, ch, hist, k, h₁, rfl, hw, hi, hok, -, hx, -⟩ := h.split_log hlog
  have hhist : hist = System.callsOf e.pid c₁.log := by
    rw [← h₁.hist_eq, hi]
    rfl
  exact ⟨c₁, h₁, rfl, hw, ⟨ch, hok, hx⟩, k, hhist ▸ hi⟩

end

end Purchases
end AnonyMail
