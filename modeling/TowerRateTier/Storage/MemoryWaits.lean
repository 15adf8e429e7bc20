import TowerRateTier.Response
import TowerRateTier.Storage.MemoryBucket
import TowerRateTier.Storage.MemoryPrune

/-!
# The advertised waits

What `retry_after` and `reset_after` promise about later requests of the same
key. Between the answer and the later request there may be any requests of other
keys, denied requests of the key itself and collections: they leave the entry as
the later request sees it (`run_prunedEntry`).

* `waits_exact`: the waits are sufficient, and no shorter ones are.
-/

namespace TowerRateTier

/-! ## Whole seconds -/

/-- Rounding up to whole seconds does not shorten a wait. -/
theorem asNanos_le_ceilSecs {d : Duration} (h : d.asNanos < 2 ^ 64) :
    d.asNanos ≤ (ceilSecs d).toNat * 10 ^ 9 := by
  have hsecs : d.asSecs.toNat = d.asNanos / 10 ^ 9 := by
    apply UInt64.toNat_ofNat_of_lt'
    simp only [UInt64.size]
    omega
  have hsub : d.subsecNanos.toNat = d.asNanos % 10 ^ 9 := by
    apply UInt32.toNat_ofNat_of_lt'
    simp only [UInt32.size]
    omega
  unfold ceilSecs
  rw [UInt64.toNat_saturatingAdd, hsecs]
  by_cases hpos : d.subsecNanos > 0
  · rw [if_pos hpos, UInt64.toNat_one]
    omega
  · rw [if_neg hpos, UInt64.toNat_zero]
    rw [gt_iff_lt, UInt32.lt_iff_toNat_lt, UInt32.toNat_zero] at hpos
    omega

/-- The header and the body of a 429 carry the same whole seconds. -/
theorem rateLimitedResponse_retryAfter (limited : RateLimited) (tier : String) (wall : SystemTime) :
    (rateLimitedResponse limited tier wall).headers.get "retry-after" =
        some (toString limited.retryAfterSecs.toNat) ∧
      ∃ start, (rateLimitedResponse limited tier wall).body =
        start ++ "\"retry_after\":" ++ toString limited.retryAfterSecs.toNat ++ "\x7d" := by
  refine ⟨rfl, "\x7b\"error\":\"rate limit exceeded\",\"tier\":\"" ++ escapeJsonString tier ++
    "\",", ?_⟩
  have hkey : "\",\"retry_after\":" = "\"," ++ "\"retry_after\":" := rfl
  simp only [rateLimitedResponse]
  rw [hkey, ← String.append_assoc]

/-- `reset_after` of an answer. -/
def Decision.resetAfter : Decision → Duration
  | .ok info => info.resetAfter
  | .error limited => limited.resetAfter

namespace MemoryStorage

/-! ## The time between two requests -/

theorem PrunedEntry.trans {now : Nanos} {a b c : Option Nanos} (hab : PrunedEntry now a b)
    (hbc : PrunedEntry now b c) : PrunedEntry now a c := by
  rcases hab with rfl | ⟨rfl, tat, rfl, hlt⟩
  · exact hbc
  · rcases hbc with rfl | ⟨h, -⟩
    · exact Or.inr ⟨rfl, tat, rfl, hlt⟩
    · cases h

/-- As long as no request of the key is admitted, its entry stays as a request at `now`
    sees it. -/
theorem run_prunedEntry (k : StorageKey) (now : Nanos) (ops : List MemoryOp) :
    ∀ st : MemoryStorage, st.firstAdmitted k ops = none →
      (∀ g, MemoryOp.retainActive g ∈ ops → g ≤ now) →
      PrunedEntry now ((st.run ops).state k) (st.state k) := by
  induction ops with
  | nil => intro st _ _; exact Or.inl rfl
  | cons op ops ih =>
    intro st hnone hgc
    have hgc' : ∀ g, MemoryOp.retainActive g ∈ ops → g ≤ now :=
      fun g hg => hgc g (List.mem_cons_of_mem _ hg)
    cases op with
    | check r =>
      rw [firstAdmitted] at hnone
      split_ifs at hnone with ha
      have hstep : (st.check r).1.state k = st.state k := by
        by_cases hk : r.key = k
        · rw [check_state_of_denied fun hok => ha ⟨hk, hok⟩]
        · exact check_state_ne st r hk
      have := ih (st.check r).1 hnone hgc'
      rw [hstep] at this
      exact this
    | retainActive g =>
      have hfilter : PrunedEntry now ((st.retainActive g).state k) (st.state k) := by
        have h : PrunedEntry g ((st.state k).filter fun tat => g ≤ tat) (st.state k) :=
          PrunedEntry.filter (Or.inl rfl)
        exact h.mono (hgc g List.mem_cons_self)
      exact (ih (st.retainActive g) hnone hgc').trans hfilter

/-- The later request is decided as if nothing had happened in between. -/
theorem check_after_run {st : MemoryStorage} {ops : List MemoryOp} {r : CheckRequest}
    (hnone : st.firstAdmitted r.key ops = none)
    (hgc : ∀ g, MemoryOp.retainActive g ∈ ops → g ≤ r.now) :
    ((st.run ops).check r).2.isOk = true ↔
      Admits (st.state r.key) r.now r.quota.emissionIntervalNanos r.quota.burstOffsetNanos
        r.cost := by
  rw [check_snd, ((run_prunedEntry r.key r.now ops st hnone hgc).check r.quota r.cost).1,
    checkEntry_isOk_iff]

/-! ## The two waits -/

variable {r : CheckRequest} {entry : Option Nanos}

/-- In range an interval per token of the cost is at most the burst offset. -/
theorem interval_mul_le (hr : r.InRange) {cost : UInt32}
    (hc : cost.toNat ≤ r.quota.maxBurst.toNat) :
    r.quota.emissionIntervalNanos.toNat * cost.toNat ≤ r.quota.burstOffsetNanos.toNat := by
  have hcap := hr.capacity_eq
  rw [Quota.capacity] at hcap
  have hle := Nat.mul_le_mul_left r.quota.emissionIntervalNanos.toNat hc
  have : r.quota.emissionIntervalNanos.toNat * r.quota.maxBurst.toNat =
      r.quota.burstOffsetNanos.toNat := by exact_mod_cast hcap
  omega

/-- A TAT within the range is admitted from a burst offset before its new value on. -/
theorem admits_some_iff (hr : r.InRange) {tat : Nanos}
    (htat : tat.toNat + r.quota.burstOffsetNanos.toNat < 2 ^ 64) {cost : UInt32}
    (hc : cost.toNat ≤ r.quota.maxBurst.toNat) (now : Nanos) :
    Admits (some tat) now r.quota.emissionIntervalNanos r.quota.burstOffsetNanos cost ↔
      tat.toNat + r.quota.emissionIntervalNanos.toNat * cost.toNat ≤
        now.toNat + r.quota.burstOffsetNanos.toNat := by
  have hinc := interval_mul_le hr hc
  have hnow := now.toNat_le
  rw [admits_iff, toNat_newTat, toNat_currentTat, Option.getD_some]
  omega

/-- A limited request of a cost within the burst has found a TAT after its time. -/
theorem limited_entry (hr : r.InRange)
    (htat : ∀ tat, entry = some tat →
      tat.toNat + 2 * r.quota.burstOffsetNanos.toNat < 2 ^ 64) {limited : RateLimited}
    (h : (checkEntry entry r.quota r.cost r.now).2 = .error limited) :
    (checkEntry entry r.quota r.cost r.now).1 = entry ∧
      ∃ tat, entry = some tat ∧ r.now.toNat < tat.toNat ∧
        limited.resetAfter.asNanos = tat.toNat - r.now.toNat ∧
        r.now.toNat + limited.retryAfter.asNanos + r.quota.burstOffsetNanos.toNat =
          tat.toNat + r.quota.emissionIntervalNanos.toNat * r.cost.toNat := by
  have hinc := interval_mul_le hr hr.cost_le
  have hno := hr.no_overflow
  have hden : ¬ Admits entry r.now r.quota.emissionIntervalNanos r.quota.burstOffsetNanos r.cost := by
    rw [← checkEntry_isOk_iff, h]
    simp [Except.isOk, Except.toBool]
  refine ⟨(checkEntry_error hden).1, ?_⟩
  rw [(checkEntry_error hden).2] at h
  obtain rfl := Except.error.inj h
  cases entry with
  | none =>
    exfalso
    apply hden
    rw [admits_iff, toNat_newTat, toNat_currentTat, Option.getD_none]
    omega
  | some tat =>
    have hroom := htat tat rfl
    rw [admits_some_iff hr (by omega) hr.cost_le, not_le] at hden
    have hcur : (currentTat (some tat) r.now).toNat = tat.toNat := by
      rw [toNat_currentTat, Option.getD_some]
      omega
    have hnew : (newTat (some tat) r.now r.quota.emissionIntervalNanos r.cost).toNat =
        tat.toNat + r.quota.emissionIntervalNanos.toNat * r.cost.toNat := by
      rw [toNat_newTat, hcur]
      omega
    have hallow : ((newTat (some tat) r.now r.quota.emissionIntervalNanos r.cost).saturatingSub
        r.quota.burstOffsetNanos).toNat = tat.toNat +
          r.quota.emissionIntervalNanos.toNat * r.cost.toNat - r.quota.burstOffsetNanos.toNat := by
      rw [UInt64.toNat_saturatingSub, hnew]
    refine ⟨tat, rfl, by omega, ?_, ?_⟩
    · rw [limitedInfo, Duration.fromNanos_asNanos,
        UInt64.toNat_sub_of_le _ _ (UInt64.le_iff_toNat_le.mpr (by omega)), hcur]
    · rw [limitedInfo, Duration.fromNanos_asNanos,
        UInt64.toNat_sub_of_le _ _ (UInt64.le_iff_toNat_le.mpr (by omega)), hallow]
      omega

/-- **Retry.** The limited request is admitted exactly once `retry_after` has passed. -/
theorem admits_iff_retryAfter (hr : r.InRange)
    (htat : ∀ tat, entry = some tat →
      tat.toNat + 2 * r.quota.burstOffsetNanos.toNat < 2 ^ 64) {limited : RateLimited}
    (h : (checkEntry entry r.quota r.cost r.now).2 = .error limited) (now : Nanos) :
    Admits (checkEntry entry r.quota r.cost r.now).1 now r.quota.emissionIntervalNanos
        r.quota.burstOffsetNanos r.cost ↔
      r.now.toNat + limited.retryAfter.asNanos ≤ now.toNat := by
  obtain ⟨hsame, tat, rfl, -, -, hretry⟩ := limited_entry hr htat h
  have hroom := htat tat rfl
  rw [hsame, admits_some_iff hr (by omega) hr.cost_le]
  omega

/-- **Reset.** A full burst is admitted exactly once `reset_after` has passed. -/
theorem admits_iff_resetAfter (hr : r.InRange)
    (htat : ∀ tat, entry = some tat →
      tat.toNat + 2 * r.quota.burstOffsetNanos.toNat < 2 ^ 64) (now : Nanos) :
    Admits (checkEntry entry r.quota r.cost r.now).1 now r.quota.emissionIntervalNanos
        r.quota.burstOffsetNanos r.quota.maxBurst ↔
      r.now.toNat + (Decision.resetAfter (checkEntry entry r.quota r.cost r.now).2).asNanos ≤
        now.toNat := by
  have hfull : r.quota.emissionIntervalNanos.toNat * r.quota.maxBurst.toNat =
      r.quota.burstOffsetNanos.toNat := by
    have := hr.capacity_eq
    rw [Quota.capacity] at this
    exact_mod_cast this
  have hno := hr.no_overflow
  cases hans : (checkEntry entry r.quota r.cost r.now).2 with
  | error limited =>
    obtain ⟨hsame, tat, rfl, hlt, hreset, -⟩ := limited_entry hr htat hans
    have hroom := htat tat rfl
    rw [hsame, admits_some_iff hr (by omega) le_rfl, hfull, Decision.resetAfter, hreset]
    omega
  | ok info =>
    have ha : Admits entry r.now r.quota.emissionIntervalNanos r.quota.burstOffsetNanos r.cost := by
      rw [← checkEntry_isOk_iff, hans]
      rfl
    have hle := (admits_iff _ _ _ _ _).mp ha
    have hnow := now_le_newTat entry r.now r.quota.emissionIntervalNanos r.cost
    rw [(checkEntry_ok ha).2] at hans
    obtain rfl := Except.ok.inj hans
    rw [(checkEntry_ok ha).1, admits_some_iff hr (by omega) le_rfl, hfull, Decision.resetAfter,
      allowedInfo, Duration.fromNanos_asNanos,
      UInt64.toNat_sub_of_le _ _ (UInt64.le_iff_toNat_le.mpr hnow)]
    omega

/-- **The waits are exact.** Let a request be within its burst and in range, like the
    stored TAT, and let no request of its key be admitted afterwards until a later
    time, nor a collection be newer than that. If the request was limited, it is
    allowed at the later time if and only if `retry_after` has passed, so a client
    that waits for the whole seconds of the header or the body is allowed. After any
    answer a full burst is allowed if and only if `reset_after` has passed. -/
theorem waits_exact (st : MemoryStorage) (r : CheckRequest) (hr : r.InRange)
    (htat : ∀ tat, st.state r.key = some tat →
      tat.toNat + 2 * r.quota.burstOffsetNanos.toNat < 2 ^ 64)
    (ops : List MemoryOp) (now : Nanos)
    (hnone : (st.check r).1.firstAdmitted r.key ops = none)
    (hgc : ∀ g, MemoryOp.retainActive g ∈ ops → g ≤ now) :
    (∀ limited, (st.check r).2 = .error limited →
      (((((st.check r).1.run ops).check { r with now := now }).2.isOk = true ↔
          r.now.toNat + limited.retryAfter.asNanos ≤ now.toNat) ∧
        (r.now.toNat + limited.retryAfterSecs.toNat * 10 ^ 9 ≤ now.toNat →
          (((st.check r).1.run ops).check { r with now := now }).2.isOk = true) ∧
        ∀ tier wall,
          (rateLimitedResponse limited tier wall).headers.get "retry-after" =
              some (toString limited.retryAfterSecs.toNat) ∧
            ∃ start, (rateLimitedResponse limited tier wall).body =
              start ++ "\"retry_after\":" ++ toString limited.retryAfterSecs.toNat ++ "\x7d")) ∧
      ((((st.check r).1.run ops).check
          { r with now := now, cost := r.quota.maxBurst }).2.isOk = true ↔
        r.now.toNat + (Decision.resetAfter (st.check r).2).asNanos ≤ now.toNat) := by
  have hentry : (st.check r).1.state r.key =
      (checkEntry (st.state r.key) r.quota r.cost r.now).1 := check_state_self st r
  constructor
  · intro limited hlim
    have hretry : (((st.check r).1.run ops).check { r with now := now }).2.isOk = true ↔
        r.now.toNat + limited.retryAfter.asNanos ≤ now.toNat := by
      rw [check_snd] at hlim
      rw [← admits_iff_retryAfter hr htat hlim now, ← hentry]
      exact check_after_run (r := { r with now := now }) hnone hgc
    refine ⟨hretry, fun hsecs => hretry.mpr ?_, rateLimitedResponse_retryAfter limited⟩
    have hceil : limited.retryAfter.asNanos ≤ limited.retryAfterSecs.toNat * 10 ^ 9 := by
      apply asNanos_le_ceilSecs
      rw [check_snd] at hlim
      obtain ⟨-, tat, htat', -, -, hsum⟩ := limited_entry hr htat hlim
      have hroom := htat tat htat'
      have hinc := interval_mul_le hr hr.cost_le
      omega
    omega
  · rw [check_snd st r, ← admits_iff_resetAfter hr htat now, ← hentry]
    exact check_after_run (r := { r with now := now, cost := r.quota.maxBurst }) hnone hgc

/-- Two requests per 20 ns, both taken at 100. -/
def drained : MemoryStorage := MemoryStorage.new.insert ⟨"u", "free"⟩ 120

/-- A request at 103. -/
def waitingRequest : CheckRequest :=
  ⟨⟨"u", "free"⟩, ⟨2, .fromNanos 20, .two_per_twenty_nanos⟩, 1, 103⟩

/-- It is limited, and after a denied request and two collections it is allowed at 110. -/
theorem waits_exact_drained :
    (drained.check waitingRequest).2 = .error ⟨2, .fromNanos 7, .fromNanos 17⟩ ∧
      (((drained.check waitingRequest).1.run
        [.retainActive 105, .check { waitingRequest with now := 109 }, .retainActive 110]).check
          { waitingRequest with now := 110 }).2.isOk = true := by
  have hlim : (drained.check waitingRequest).2 = .error ⟨2, .fromNanos 7, .fromNanos 17⟩ := by
    decide
  refine ⟨hlim, ((waits_exact drained waitingRequest ⟨by decide, by decide, by decide⟩ ?_ _ 110
    (by decide) ?_).1 _ hlim).1.mpr (by decide)⟩
  · intro tat htat
    obtain rfl : (120 : Nanos) = tat := Option.some.inj htat
    decide
  · intro g hg
    simp only [List.mem_cons, MemoryOp.retainActive.injEq, reduceCtorEq, List.not_mem_nil,
      or_false, false_or] at hg
    rcases hg with rfl | rfl
    · decide
    · decide

end MemoryStorage

end TowerRateTier
