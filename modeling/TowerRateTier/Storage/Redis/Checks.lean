import TowerRateTier.Storage.Redis.Client

/-!
# Checks of `RedisStorage`

A run of checks of one key, on any limited quota. The script counts in
microseconds, with the emission interval rounded up, so `scriptInterval` and
`scriptBurst` are what it works with.

Redis may drop a key at any moment from its expiry on, so a run says at each
check which of the expired keys are gone.

* `Holds.advance`: a key that may be dropped is as good as none.
* `checkAndUpdate_eq`: one check in natural numbers.
-/

namespace TowerRateTier

/-! ## Runs of checks -/

/-- One check of a run: the time on the script's clock, the time of the rate
    limiter's clock where that is another one, and the keys that Redis drops
    before the check if they have expired. -/
structure ScriptCheck where
  cost : UInt32
  nowUs : ℕ
  limiterNow : Nanos
  dropped : String → Bool

/-- `Entry` has expired at a time in microseconds. -/
def Redis.Entry.expired (entry : Redis.Entry) (nowUs : ℕ) : Bool :=
  match entry.expiresAt with
  | some expiresAt => expiresAt ≤ nowUs
  | none => false

/-- The server at a later time, without the expired keys among `dropped`. -/
def Redis.Server.advance (srv : Redis.Server) (nowUs : ℕ) (dropped : String → Bool) :
    Redis.Server where
  keyspace key := (srv.keyspace key).filter fun entry => !(dropped key && entry.expired nowUs)
  timeUs := nowUs

/-- The time of a check in nanoseconds. -/
def ScriptCheck.now (c : ScriptCheck) : Nanos := UInt64.ofNat (c.nowUs * 1000)

/-- The `now` that the storage is called with. In server time it is ignored. -/
def ScriptCheck.argNow (c : ScriptCheck) (st : RedisStorage) : Nanos :=
  if st.clientClock then c.now else c.limiterNow

/-- One check of a run. -/
def RedisStorage.runCheck (sha1 : List UInt8 → Digest) (st : RedisStorage) (key : StorageKey)
    (quota : Quota) (srv : Redis.Server) (c : ScriptCheck) : Redis.Server × StorageResult :=
  st.checkAndUpdate sha1 (srv.advance c.nowUs c.dropped) key quota c.cost (c.argNow st)

/-- A stored TAT survives until it is due; what is dropped after that is not missed. -/
theorem Redis.Holds.advance {srv : Redis.Server} {key : String} {x : ℕ}
    (h : Redis.Holds (srv.keyspace key) x) (n : ℕ) (dropped : String → Bool) :
    ∃ y, Redis.Holds ((srv.advance n dropped).keyspace key) y ∧ y ≤ x ∧ max y n = max x n := by
  simp only [Redis.Server.advance]
  generalize srv.keyspace key = entry at h
  cases h with
  | absent => exact ⟨0, .absent, le_rfl, rfl⟩
  | stored _ expiresAt hexp =>
    by_cases hd : dropped key = true ∧ expiresAt ≤ n
    · rw [Option.filter_some, if_neg (by simp [Redis.Entry.expired, hd])]
      exact ⟨0, .absent, Nat.zero_le _, by omega⟩
    · rw [Option.filter_some, if_pos (by simpa [Redis.Entry.expired, imp_iff_not_or] using hd)]
      exact ⟨x, .stored x expiresAt hexp, le_rfl, rfl⟩

/-! ## Quotas as the script gets them -/

namespace Quota

/-- The emission interval that the script gets, in microseconds. -/
def scriptInterval (q : Quota) : ℕ := (max (microsCeil q.emissionIntervalNanos) 1).toNat

/-- The burst offset that the script gets, in microseconds, if it fits into a `u64`. -/
def scriptBurst (q : Quota) : ℕ := q.scriptInterval * q.maxBurst.toNat

theorem scriptInterval_eq (q : Quota) :
    q.scriptInterval = max (microsCeil q.emissionIntervalNanos).toNat 1 :=
  UInt64.toNat_max ..

theorem scriptInterval_pos (q : Quota) : 1 ≤ q.scriptInterval := by
  rw [scriptInterval_eq]
  exact le_max_right _ _

/-- A cost up to the maximum burst fits into the burst of the script. -/
theorem cost_le_scriptBurst {q : Quota} {cost : UInt32} (h : cost.toNat ≤ q.maxBurst.toNat) :
    q.scriptInterval * cost.toNat ≤ q.scriptBurst := by
  rw [scriptBurst]
  exact Nat.mul_le_mul_left _ h

/-- The interval of the script is not shorter. -/
theorem emissionIntervalNanos_le (q : Quota) :
    q.emissionIntervalNanos.toNat ≤ 1000 * q.scriptInterval := by
  rw [scriptInterval_eq]
  exact (le_microsCeil _).trans (Nat.mul_le_mul_left _ (le_max_left _ _))

end Quota

/-- A limited quota, and a time that leaves room for two of its bursts below `2⁵³`. -/
structure InScriptRange (q : Quota) (nowUs : ℕ) : Prop where
  limited : q.isUnlimited = false
  room : nowUs + 2 * q.scriptBurst ≤ 2 ^ 53

namespace InScriptRange

variable {q : Quota} {n : ℕ}

theorem interval_le_burst (h : InScriptRange q n) : q.scriptInterval ≤ q.scriptBurst :=
  Nat.le_mul_of_pos_right _ ((q.isUnlimited_eq_false_iff).mp h.limited)

theorem toNat_now (h : InScriptRange q n) (c : ScriptCheck) (hc : c.nowUs = n) :
    c.now.toNat = n * 1000 := by
  have := h.room
  rw [ScriptCheck.now, hc, UInt64.toNat_ofNat_of_lt' (by simp only [UInt64.size]; omega)]

/-- The burst offset in nanoseconds is below the one of the script. -/
theorem burst_le (h : InScriptRange q n) :
    q.burstOffsetNanos.toNat = q.emissionIntervalNanos.toNat * q.maxBurst.toNat ∧
      q.burstOffsetNanos.toNat ≤ 1000 * q.scriptBurst := by
  have h1 := h.room
  have h2 : q.emissionIntervalNanos.toNat * q.maxBurst.toNat ≤ 1000 * q.scriptBurst := by
    rw [Quota.scriptBurst, ← mul_assoc]
    exact Nat.mul_le_mul_right _ q.emissionIntervalNanos_le
  rw [q.toNat_burstOffsetNanos, min_eq_left (by omega)]
  exact ⟨rfl, h2⟩

/-- The arguments of the script do not saturate. -/
theorem argv_eq (h : InScriptRange q n) (sha1 : List UInt8 → Digest) (st : RedisStorage)
    (key : StorageKey) (cost : UInt32) (now : Nanos) :
    (st.scriptCall sha1 key q cost now).argv =
      [(st.scriptCall sha1 key q cost now).now, toString q.scriptInterval, toString q.scriptBurst,
        toString cost.toNat] := by
  have h1 := h.room
  have hb : (st.scriptCall sha1 key q cost now).burstOffset.toNat = q.scriptBurst := by
    rw [RedisStorage.scriptCall, UInt64.toNat_saturatingMul, UInt32.toNat_toUInt64]
    exact min_eq_left (by rw [← Quota.scriptInterval, ← Quota.scriptBurst]; omega)
  rw [← hb]
  rfl

variable {c : ScriptCheck}

/-- Both clocks give the time of the check. -/
theorem scriptNow_argNow (h : InScriptRange q c.nowUs) (sha1 : List UInt8 → Digest)
    (st : RedisStorage) (key : StorageKey) (srv : Redis.Server) (htime : srv.timeUs = c.nowUs) :
    Redis.scriptNow Double.round srv (st.scriptCall sha1 key q c.cost (c.argNow st)).now =
      some (c.nowUs : ℚ) := by
  have h1 := h.room
  have h2 := q.scriptInterval_pos
  have h3 := h.interval_le_burst
  unfold RedisStorage.scriptCall ScriptCheck.argNow
  by_cases hc : st.clientClock = true
  · have hnum : toString (c.now / 1000) = toString c.nowUs := by
      have : (c.now / 1000).toNat = c.nowUs := by
        rw [UInt64.toNat_div, h.toNat_now c rfl]
        exact Nat.mul_div_cancel _ (by norm_num)
      show toString (c.now / 1000).toNat = _
      rw [this]
    simp only [hc, if_true, hnum]
    exact Redis.scriptNow_natCast Double.integerExact_round srv (by omega)
  · simp only [hc, ← htime]
    exact Redis.scriptNow_clock Double.integerExact_round srv (by omega)

/-- **One check.** The script is the GCRA on its own interval and burst. -/
theorem checkAndUpdate_eq (h : InScriptRange q c.nowUs) (hcost : c.cost.toNat ≤ q.maxBurst.toNat)
    (sha1 : List UInt8 → Digest) (st : RedisStorage) (key : StorageKey) (srv : Redis.Server)
    (htime : srv.timeUs = c.nowUs) {x : ℕ}
    (hx : Redis.Holds (srv.keyspace (st.redisKey sha1 key)) x)
    (hxb : x ≤ c.nowUs + q.scriptBurst) :
    st.checkAndUpdate sha1 srv key q c.cost (c.argNow st) =
      let newTat := max x c.nowUs + q.scriptInterval * c.cost.toNat
      if c.nowUs + q.scriptBurst < newTat then
        (srv, .ok (decodeReply (Redis.limitedReply q.scriptInterval q.scriptBurst c.cost.toNat
          c.nowUs (max x c.nowUs)) q.maxBurst))
      else
        (if c.nowUs < newTat then srv.store (st.redisKey sha1 key) c.nowUs newTat else srv,
          .ok (decodeReply (Redis.allowedReply q.scriptInterval q.scriptBurst c.nowUs newTat)
            q.maxBurst)) := by
  have hgcra := Redis.gcra_eq Double.integerExact_round srv hx q.scriptInterval_pos
    h.interval_le_burst (Quota.cost_le_scriptBurst hcost) hxb h.room
    (h.scriptNow_argNow sha1 st key srv htime)
  have hkey : (st.scriptCall sha1 key q c.cost (c.argNow st)).key = st.redisKey sha1 key := rfl
  simp only [RedisStorage.checkAndUpdate, h.argv_eq, hkey, hgcra]
  split_ifs <;> rfl

end InScriptRange

end TowerRateTier
