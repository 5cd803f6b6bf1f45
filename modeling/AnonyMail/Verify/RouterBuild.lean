import AnonyMail.Api.Governor

/-! # Building the router

The period of a limiter is a whole number of milliseconds, divided out of a rate. The build of the
router gets through exactly if no enabled limit has a rate so high that nothing is left of its
period. -/

namespace AnonyMail

/-! ## What the environment can set -/

/-- The decimal form of a number has no blanks around it. -/
theorem trim_repr (n : Nat) : Str.trim (Nat.repr n) = Nat.repr n := by
  refine Str.trim_of_forall fun c hc => ?_
  rw [Nat.toList_repr] at hc
  have hdigit := Nat.isDigit_of_mem_toDigits (by decide) (by decide) hc
  have hbound : 48 ≤ c.toNat ∧ c.toNat ≤ 57 := by
    simpa [Char.isDigit, UInt32.le_iff_toNat_le] using hdigit
  simp [Str.isWhitespace]
  omega

theorem parseEnv_repr {fromStr : String → Except Decimal.IntErrorKind α} {env : Env}
    {default : α} (hkey : env key = some (Nat.repr n)) (hread : fromStr (Nat.repr n) = .ok a) :
    parseEnv fromStr env key default = .ok a := by
  have hne : (Nat.repr n).isEmpty = false := by
    rw [String.isEmpty_eq_false_iff, ne_eq, ← String.toList_inj, Nat.toList_repr]
    exact Nat.toDigits_ne_nil
  simp [parseEnv, hkey, trim_repr, hne, hread, Except.mapError]

theorem u64FromStr_repr (n : UInt64) : u64FromStr (Nat.repr n.toNat) = .ok n := by
  rw [u64FromStr, Decimal.parse_repr (by have := n.toNat_lt; omega)]
  exact congrArg _ UInt64.ofNat_toNat

theorem u32FromStr_repr (n : UInt32) : u32FromStr (Nat.repr n.toNat) = .ok n := by
  rw [u32FromStr, Decimal.parse_repr (by have := n.toNat_lt; omega)]
  exact congrArg _ UInt32.ofNat_toNat

/-- `from_env` accepts every rate and every burst. -/
theorem RateLimits.exists_fromEnv (config : RateLimits) :
    ∃ env, RateLimits.fromEnv env = .ok config := by
  let env : Env := fun key =>
    [("API_RATE_LIMIT_PER_SECOND", Nat.repr config.apiRateLimitPerSecond.toNat),
      ("API_RATE_LIMIT_BURST", Nat.repr config.apiRateLimitBurst.toNat),
      ("API_CREATE_RATE_LIMIT_PER_MINUTE", Nat.repr config.createRateLimitPerMinute.toNat),
      ("API_CREATE_RATE_LIMIT_BURST", Nat.repr config.createRateLimitBurst.toNat)].lookup key
  have hrate : parseEnv u64FromStr env "API_RATE_LIMIT_PER_SECOND" default.apiRateLimitPerSecond =
    .ok config.apiRateLimitPerSecond := parseEnv_repr rfl (u64FromStr_repr _)
  have hburst : parseEnv u32FromStr env "API_RATE_LIMIT_BURST" default.apiRateLimitBurst =
    .ok config.apiRateLimitBurst := parseEnv_repr rfl (u32FromStr_repr _)
  have hcreate : parseEnv u64FromStr env "API_CREATE_RATE_LIMIT_PER_MINUTE"
    default.createRateLimitPerMinute = .ok config.createRateLimitPerMinute :=
    parseEnv_repr rfl (u64FromStr_repr _)
  have hcreateBurst : parseEnv u32FromStr env "API_CREATE_RATE_LIMIT_BURST"
    default.createRateLimitBurst = .ok config.createRateLimitBurst :=
    parseEnv_repr rfl (u32FromStr_repr _)
  refine ⟨env, ?_⟩
  rw [fromEnv, hrate, hburst, hcreate, hcreateBurst]
  rfl

/-- Each enabled limit leaves a whole millisecond to a request. -/
def RateLimits.LeavesPeriods (config : RateLimits) : Prop :=
  (config.createRateLimitBurst = 0 ∨ config.createRateLimitPerMinute ≤ 60000) ∧
    (config.apiRateLimitBurst = 0 ∨ config.apiRateLimitPerSecond ≤ 1000)

namespace Api

/-! ## Builds -/

theorem Build.run_bind_ok {x : Build α} {f : α → Build β} (h : x.run.run log = (.ok a, log')) :
    (x >>= f).run.run log = (f a).run.run log' := by
  rw [ExceptT.run_bind, StateT.run_bind, h]
  rfl

theorem Build.run_bind_error {x : Build α} {f : α → Build β}
    (h : x.run.run log = (.error e, log')) : (x >>= f).run.run log = (.error e, log') := by
  rw [ExceptT.run_bind, StateT.run_bind, h]
  rfl

/-! ## One limit -/

variable {G : Governor} {total rate : UInt64} {burst : UInt32} {log : List GovernorCall}

variable (log) in
theorem run_governorLayer (hperiod : period ≠ 0) (hburst : burst ≠ 0) :
    ∃ c, (governorLayer G period burst).run.run log = (.ok c, log ++ [⟨period, burst⟩]) := by
  obtain ⟨c, hc⟩ := Option.ne_none_iff_exists'.mp
    (mt (G.finish_eq_none period burst).mp (by simp [hperiod, hburst]))
  exact ⟨c, by simp [governorLayer, hc]; rfl⟩

theorem run_governorLayer_zero :
    (governorLayer G 0 burst).run.run log =
      (.error "governor config: period and burst are validated non-zero", log ++ [⟨0, burst⟩]) := by
  simp [governorLayer, (G.finish_eq_none 0 burst).mpr (.inl rfl)]
  rfl

theorem max_one (hrate : 0 < rate) : max rate 1 = rate := by
  change (if rate ≤ 1 then 1 else rate) = rate
  split
  · next hle =>
    rw [UInt64.le_iff_toNat_le, UInt64.toNat_one] at hle
    rw [UInt64.lt_iff_toNat_lt, UInt64.toNat_zero] at hrate
    exact UInt64.toNat_inj.mp (by rw [UInt64.toNat_one]; omega)
  · rfl

/-- Nothing is left of a period if there are more requests than milliseconds. -/
theorem div_max_eq_zero (hrate : 0 < rate) : total / max rate 1 = 0 ↔ total < rate := by
  rw [max_one hrate, ← UInt64.toNat_inj, UInt64.toNat_div, UInt64.lt_iff_toNat_lt]
  exact Nat.div_eq_zero_iff_lt (UInt64.lt_iff_toNat_lt.mp hrate)

/-- One of the two limits that `build_router` sets up, at `total` milliseconds shared by `rate`
requests. -/
def limit (G : Governor) (total rate : UInt64) (burst : UInt32) : Build (Option G.Config) :=
  if rate > 0 && burst > 0 then some <$> governorLayer G (total / max rate 1) burst else pure none

theorem buildRouter_eq (config : RateLimits) :
    buildRouter G config =
      (do
        let create ← limit G 60000 config.createRateLimitPerMinute config.createRateLimitBurst
        let general ← limit G 1000 config.apiRateLimitPerSecond config.apiRateLimitBurst
        return ⟨create, general⟩) := rfl

variable (log) in
theorem run_limit (h : burst = 0 ∨ rate ≤ total) :
    ∃ c calls, (limit G total rate burst).run.run log = (.ok c, log ++ calls) ∧
      ∀ call ∈ calls, call.period ≠ 0 ∧ call.burst ≠ 0 := by
  unfold limit
  split
  · next hon =>
    obtain ⟨hrate, hburst⟩ : 0 < rate ∧ 0 < burst := by simpa using hon
    have hburst : burst ≠ 0 := UInt32.pos_iff_ne_zero.mp hburst
    have hperiod : total / max rate 1 ≠ 0 := fun h0 =>
      UInt64.not_lt.mpr (h.resolve_left hburst) ((div_max_eq_zero hrate).mp h0)
    obtain ⟨c, hc⟩ := run_governorLayer (G := G) log hperiod hburst
    refine ⟨some c, [⟨total / max rate 1, burst⟩], ?_, by simp [hperiod, hburst]⟩
    simp [hc]
    rfl
  · exact ⟨none, [], by simp; rfl, by simp⟩

theorem run_limit_panics (hburst : burst ≠ 0) (hrate : total < rate) :
    (limit G total rate burst).run.run log =
      (.error "governor config: period and burst are validated non-zero", log ++ [⟨0, burst⟩]) := by
  have hpos : 0 < rate := UInt64.lt_of_le_of_lt UInt64.zero_le hrate
  have hon : (rate > 0 && burst > 0) = true := by
    simp [hpos, UInt32.pos_iff_ne_zero.mpr hburst]
  rw [limit, if_pos hon, (div_max_eq_zero hpos).mpr hrate]
  simp [run_governorLayer_zero]
  rfl

/-! ## The router -/

/-- The build gets through, and each limiter it asks for has a period and a burst. -/
structure Build.NeverPanics (b : Build α) : Prop where
  calls : ∀ call ∈ b.result.2, call.period ≠ 0 ∧ call.burst ≠ 0
  ok : ∃ a, b.result.1 = .ok a

theorem neverPanics_buildRouter {config : RateLimits}
    (h : config.LeavesPeriods) : (buildRouter G config).NeverPanics := by
  obtain ⟨create, calls, hcreate, hcalls⟩ := run_limit (G := G) [] h.1
  obtain ⟨general, calls', hgeneral, hcalls'⟩ := run_limit (G := G) ([] ++ calls) h.2
  have hrun : (buildRouter G config).result = (.ok ⟨create, general⟩, [] ++ calls ++ calls') := by
    rw [buildRouter_eq, Build.result, Build.run_bind_ok hcreate, Build.run_bind_ok hgeneral]
    rfl
  constructor
  · intro call hcall
    rw [hrun, List.nil_append, List.mem_append] at hcall
    exact hcall.elim (hcalls call) (hcalls' call)
  · exact ⟨_, congrArg Prod.fst hrun⟩

/-- The limit on creation is built first, so the other one panics only if this one does not. -/
theorem buildRouter_panics {config : RateLimits} (h : ¬config.LeavesPeriods) :
    (buildRouter G config).result.1 =
      .error "governor config: period and burst are validated non-zero" := by
  by_cases hcreate : config.createRateLimitBurst = 0 ∨ config.createRateLimitPerMinute ≤ 60000
  · have hgeneral : ¬(config.apiRateLimitBurst = 0 ∨ config.apiRateLimitPerSecond ≤ 1000) :=
      fun hgeneral => h ⟨hcreate, hgeneral⟩
    obtain ⟨hburst, hrate⟩ := not_or.mp hgeneral
    obtain ⟨create, calls, hrun, -⟩ := run_limit (G := G) [] hcreate
    rw [buildRouter_eq, Build.result, Build.run_bind_ok hrun,
      Build.run_bind_error (run_limit_panics hburst (UInt64.not_le.mp hrate))]
  · obtain ⟨hburst, hrate⟩ := not_or.mp hcreate
    rw [buildRouter_eq, Build.result,
      Build.run_bind_error (run_limit_panics hburst (UInt64.not_le.mp hrate))]

/-- The environment can set these rates and bursts, whatever they are, and the router is built without
a panic exactly if they leave each enabled limit a period. -/
theorem buildRouter_neverPanics_iff (G : Governor) (config : RateLimits) :
    (∃ env, RateLimits.fromEnv env = .ok config) ∧
      ((buildRouter G config).NeverPanics ↔ config.LeavesPeriods) := by
  refine ⟨config.exists_fromEnv, fun h => ?_, neverPanics_buildRouter⟩
  by_contra hperiods
  obtain ⟨layers, hok⟩ := h.ok
  rw [buildRouter_panics hperiods] at hok
  cases hok

/-- A limiter that keeps its arguments. -/
def Governor.plain : Governor where
  Config := UInt64 × UInt32
  finish period burst := if period = 0 ∨ burst = 0 then none else some (period, burst)
  finish_eq_none period burst := by simp [or_iff_not_imp_left]

/-- With `API_RATE_LIMIT_PER_SECOND=1001` and nothing else the server panics before it serves. -/
theorem not_neverPanics_buildRouter :
    ¬∀ (env : Env) (config : RateLimits), RateLimits.fromEnv env = .ok config →
      ∀ G : Governor, (buildRouter G config).NeverPanics := by
  intro h
  let env : Env := fun key => if key = "API_RATE_LIMIT_PER_SECOND" then some "1001" else none
  have henv : RateLimits.fromEnv env = .ok { RateLimits.default with
      apiRateLimitPerSecond := 1001 } := by decide
  obtain ⟨layers, hok⟩ := (h env _ henv Governor.plain).ok
  have hpanic : (buildRouter Governor.plain { RateLimits.default with
      apiRateLimitPerSecond := 1001 }).result.1 =
        .error "governor config: period and burst are validated non-zero" := rfl
  cases hok.symm.trans hpanic

end Api
end AnonyMail
