import TowerRateTier.Storage.MemoryBucket
import TowerRateTier.Storage.Redis.Checks

/-!
# The Redis script agrees with `check_gcra`

The script counts in microseconds and lets Redis drop what it no longer needs;
`check_gcra` counts in nanoseconds and keeps its TAT for ever. On quotas with a
whole number of microseconds per request the two give the same answers.

* `Agrees.check`: one check keeps the relation between the key and the TAT, and
  gives the same answer on both sides.
* `script_agrees_with_checkGcra`: the same answers over whole runs.
-/

namespace TowerRateTier

/-! ## Runs of checks -/

namespace RedisStorage

variable (sha1 : List UInt8 → Digest) (st : RedisStorage) (key : StorageKey) (quota : Quota)

/-- The answers to the checks of one key. -/
def scriptAnswers : Redis.Server → List ScriptCheck → List StorageResult
  | _, [] => []
  | srv, c :: cs =>
    (st.runCheck sha1 key quota srv c).2 :: scriptAnswers (st.runCheck sha1 key quota srv c).1 cs

end RedisStorage

/-- The answers of `check_gcra` over one stored TAT. -/
def tatAnswers (quota : Quota) : Option Nanos → List ScriptCheck → List Decision
  | _, [] => []
  | tat, c :: cs =>
    (MemoryStorage.checkEntry tat quota c.cost c.now).2 ::
      tatAnswers quota (MemoryStorage.checkEntry tat quota c.cost c.now).1 cs

/-! ## Quotas in microseconds -/

namespace Quota

/-- The emission interval in microseconds. -/
def emissionMicros (q : Quota) : ℕ := q.emissionIntervalNanos.toNat / 1000

/-- The burst offset in microseconds. -/
def burstMicros (q : Quota) : ℕ := q.emissionMicros * q.maxBurst.toNat

end Quota

/-- A limited quota with a whole number of microseconds per request, and a time
    that leaves room for two bursts below `2⁵³`. -/
structure InMicros (q : Quota) (nowUs : ℕ) : Prop where
  limited : q.isUnlimited = false
  whole : 1000 ∣ q.emissionIntervalNanos.toNat
  room : nowUs + 2 * q.burstMicros ≤ 2 ^ 53

namespace InMicros

variable {q : Quota} {n : ℕ}

theorem interval_eq (h : InMicros q n) : q.emissionIntervalNanos.toNat = q.emissionMicros * 1000 :=
  (Nat.div_mul_cancel h.whole).symm

theorem interval_pos (h : InMicros q n) : 1 ≤ q.emissionMicros := by
  have h1 := q.emissionIntervalNanos_pos h.limited
  have h2 := h.interval_eq
  omega

theorem burst_eq (h : InMicros q n) : q.burstOffsetNanos.toNat = q.burstMicros * 1000 := by
  have h1 : q.emissionIntervalNanos.toNat * q.maxBurst.toNat = q.burstMicros * 1000 := by
    rw [h.interval_eq, Quota.burstMicros]; ring
  have := h.room
  rw [q.toNat_burstOffsetNanos, h1]; omega

/-- The script gets the quota in microseconds. -/
theorem scriptInterval_eq (h : InMicros q n) : q.scriptInterval = q.emissionMicros := by
  rw [Quota.scriptInterval_eq, microsCeil_eq h.whole]
  exact max_eq_left h.interval_pos

theorem scriptBurst_eq (h : InMicros q n) : q.scriptBurst = q.burstMicros := by
  rw [Quota.scriptBurst, h.scriptInterval_eq, Quota.burstMicros]

theorem inScriptRange (h : InMicros q n) : InScriptRange q n where
  limited := h.limited
  room := by
    rw [h.scriptBurst_eq]
    exact h.room

theorem toNat_now (h : InMicros q n) (c : ScriptCheck) (hc : c.nowUs = n) :
    c.now.toNat = n * 1000 :=
  h.inScriptRange.toNat_now c hc

/-- A check at that time is within the range of the `check_gcra` lemmas. -/
theorem inRange (h : InMicros q n) (key : StorageKey) (c : ScriptCheck) (hc : c.nowUs = n)
    (hcost : c.cost.toNat ≤ q.maxBurst.toNat) : CheckRequest.InRange ⟨key, q, c.cost, c.now⟩ where
  limited := h.limited
  cost_le := hcost
  no_overflow := by
    have := h.room
    show c.now.toNat + 2 * q.burstOffsetNanos.toNat < 2 ^ 64
    rw [h.toNat_now c hc, h.burst_eq]; omega

end InMicros

/-! ## One check -/

/-- The key and the TAT of `check_gcra` say the same from time `n` on: `x`
    microseconds is what the key holds. -/
def Agrees (q : Quota) (n : ℕ) (entry : Option Redis.Entry) (tat : Option Nanos) : Prop :=
  ∃ x, Redis.Holds entry x ∧ x ≤ n + q.burstMicros ∧
    max (tat.getD 0).toNat (n * 1000) = max x n * 1000

theorem agrees_absent (q : Quota) (n : ℕ) : Agrees q n none none := by
  refine ⟨0, .absent, by omega, ?_⟩
  have : (Option.getD none (0 : Nanos)).toNat = 0 := rfl
  omega

theorem max_later {t x n n' : ℕ} (h : max t (n * 1000) = max x n * 1000) (hn : n ≤ n') :
    max t (n' * 1000) = max x n' * 1000 := by
  have hn' : n * 1000 ≤ n' * 1000 := Nat.mul_le_mul_right _ hn
  calc max t (n' * 1000) = max (max t (n * 1000)) (n' * 1000) := by
        rw [max_assoc, max_eq_right hn']
    _ = max (max x n) n' * 1000 := by rw [h, Nat.mul_max_mul_right]
    _ = max x n' * 1000 := by rw [max_assoc, max_eq_right hn]

theorem Agrees.later {q : Quota} {n n' : ℕ} {entry : Option Redis.Entry} {tat : Option Nanos}
    (h : Agrees q n entry tat) (hn : n ≤ n') : Agrees q n' entry tat := by
  obtain ⟨x, hx, hxb, hmax⟩ := h
  exact ⟨x, hx, by omega, max_later hmax hn⟩

/-- A key that may be dropped holds a TAT in the past, which is as good as none. -/
theorem Agrees.advance {q : Quota} {n : ℕ} {srv : Redis.Server} {key : String}
    {tat : Option Nanos} (h : Agrees q n (srv.keyspace key) tat) (dropped : String → Bool) :
    Agrees q n ((srv.advance n dropped).keyspace key) tat := by
  obtain ⟨x, hx, hxb, hmax⟩ := h
  obtain ⟨y, hy, hyx, hyn⟩ := hx.advance n dropped
  exact ⟨y, hy, hyx.trans hxb, hyn ▸ hmax⟩

section Check

variable {q : Quota} {c : ScriptCheck} {tat : Option Nanos} {x : ℕ}

/-- The check of the storage, in microseconds. -/
theorem redis_check_eq (hq : InMicros q c.nowUs) (hcost : c.cost.toNat ≤ q.maxBurst.toNat)
    (sha1 : List UInt8 → Digest) (st : RedisStorage) (key : StorageKey) (srv : Redis.Server)
    (htime : srv.timeUs = c.nowUs) (hx : Redis.Holds (srv.keyspace (st.redisKey sha1 key)) x)
    (hxb : x ≤ c.nowUs + q.burstMicros) :
    st.checkAndUpdate sha1 srv key q c.cost (c.argNow st) =
      let newTat := max x c.nowUs + q.emissionMicros * c.cost.toNat
      if c.nowUs + q.burstMicros < newTat then
        (srv, .ok (decodeReply (Redis.limitedReply q.emissionMicros q.burstMicros c.cost.toNat
          c.nowUs (max x c.nowUs)) q.maxBurst))
      else
        (if c.nowUs < newTat then srv.store (st.redisKey sha1 key) c.nowUs newTat else srv,
          .ok (decodeReply (Redis.allowedReply q.emissionMicros q.burstMicros c.nowUs newTat)
            q.maxBurst)) := by
  have hcheck := hq.inScriptRange.checkAndUpdate_eq hcost sha1 st key srv htime hx
    (by rw [hq.scriptBurst_eq]; exact hxb)
  rw [hq.scriptInterval_eq, hq.scriptBurst_eq] at hcheck
  exact hcheck

/-- The TAT that `check_gcra` sees. -/
theorem toNat_currentTat_now (hq : InMicros q c.nowUs)
    (hmax : max (tat.getD 0).toNat (c.nowUs * 1000) = max x c.nowUs * 1000) :
    (currentTat tat c.now).toNat = max x c.nowUs * 1000 := by
  rw [toNat_currentTat, ← hmax, hq.toNat_now c rfl]
  cases tat with
  | none =>
    have : (Option.getD none (0 : Nanos)).toNat = 0 := rfl
    rw [Option.getD_none, hq.toNat_now c rfl, this]
    omega
  | some t => rfl

/-- The new TAT of `check_gcra` does not saturate. -/
theorem toNat_newTat_now (hq : InMicros q c.nowUs) (hcost : c.cost.toNat ≤ q.maxBurst.toNat)
    (hxb : x ≤ c.nowUs + q.burstMicros)
    (hmax : max (tat.getD 0).toNat (c.nowUs * 1000) = max x c.nowUs * 1000) :
    (newTat tat c.now q.emissionIntervalNanos c.cost).toNat =
      (max x c.nowUs + q.emissionMicros * c.cost.toNat) * 1000 := by
  have h1 : q.emissionMicros * c.cost.toNat ≤ q.burstMicros := Nat.mul_le_mul_left _ hcost
  have h2 := hq.room
  have h3 : q.emissionIntervalNanos.toNat * c.cost.toNat =
      q.emissionMicros * c.cost.toNat * 1000 := by
    rw [hq.interval_eq]; ring
  rw [toNat_newTat, toNat_currentTat_now hq hmax, h3, ← Nat.add_mul]
  exact min_eq_left (by omega)

/-- A whole number of microseconds is the same duration on both sides. -/
theorem fromMicros_eq_fromNanos {us : ℕ} {nanos : Nanos} (h : nanos.toNat = us * 1000) :
    Duration.fromMicros (UInt64.ofNat us) = Duration.fromNanos nanos := by
  have := nanos.toNat_lt
  apply Duration.ext
  rw [Duration.fromMicros_asNanos, Duration.fromNanos_asNanos, h,
    UInt64.toNat_ofNat_of_lt' (by simp only [UInt64.size]; omega)]

theorem limitedReply_eq (hq : InMicros q c.nowUs) (hcost : c.cost.toNat ≤ q.maxBurst.toNat)
    (hxb : x ≤ c.nowUs + q.burstMicros)
    (hmax : max (tat.getD 0).toNat (c.nowUs * 1000) = max x c.nowUs * 1000)
    (hlim : c.nowUs + q.burstMicros < max x c.nowUs + q.emissionMicros * c.cost.toNat) :
    decodeReply (Redis.limitedReply q.emissionMicros q.burstMicros c.cost.toNat c.nowUs
        (max x c.nowUs)) q.maxBurst =
      .error (limitedInfo tat c.now q.emissionIntervalNanos q.burstOffsetNanos c.cost) := by
  have hcur := toNat_currentTat_now hq hmax
  have hnow := hq.toNat_now c rfl
  have hallow : ((newTat tat c.now q.emissionIntervalNanos c.cost).saturatingSub
      q.burstOffsetNanos).toNat =
      (max x c.nowUs + q.emissionMicros * c.cost.toNat - q.burstMicros) * 1000 := by
    rw [UInt64.toNat_saturatingSub, toNat_newTat_now hq hcost hxb hmax, hq.burst_eq,
      Nat.sub_mul]
  rw [decodeReply_limited, Except.error.injEq]
  apply RateLimited.ext
  · exact UInt32.toNat_inj.mp (hq.inRange ⟨"", ""⟩ c rfl hcost).limit_eq.symm
  · apply fromMicros_eq_fromNanos
    rw [UInt64.toNat_sub_of_le _ _ (UInt64.le_iff_toNat_le.mpr (by rw [hallow, hnow]; omega)),
      hallow, hnow, ← Nat.sub_mul]
  · apply fromMicros_eq_fromNanos
    rw [UInt64.toNat_sub_of_le _ _ (UInt64.le_iff_toNat_le.mpr (by rw [hcur, hnow]; omega)),
      hcur, hnow, ← Nat.sub_mul]

theorem allowedReply_eq (hq : InMicros q c.nowUs) (hcost : c.cost.toNat ≤ q.maxBurst.toNat)
    (hxb : x ≤ c.nowUs + q.burstMicros)
    (hmax : max (tat.getD 0).toNat (c.nowUs * 1000) = max x c.nowUs * 1000) :
    decodeReply (Redis.allowedReply q.emissionMicros q.burstMicros c.nowUs
        (max x c.nowUs + q.emissionMicros * c.cost.toNat)) q.maxBurst =
      .ok (allowedInfo c.now q.emissionIntervalNanos q.burstOffsetNanos
        (newTat tat c.now q.emissionIntervalNanos c.cost)) := by
  have hnow := hq.toNat_now c rfl
  have hpos := hq.interval_pos
  have hahead : (newTat tat c.now q.emissionIntervalNanos c.cost - c.now).toNat =
      (max x c.nowUs + q.emissionMicros * c.cost.toNat - c.nowUs) * 1000 := by
    have hnew := toNat_newTat_now hq hcost hxb hmax
    rw [UInt64.toNat_sub_of_le _ _ (UInt64.le_iff_toNat_le.mpr (by rw [hnew, hnow]; omega)), hnew,
      hnow, ← Nat.sub_mul]
  have hrem := (q.toNat_div_interval
    (n := q.burstOffsetNanos.saturatingSub (newTat tat c.now q.emissionIntervalNanos c.cost - c.now))
    (by rw [UInt64.toNat_saturatingSub]; omega)).1
  rw [UInt64.toNat_saturatingSub, hahead, hq.burst_eq, hq.interval_eq, ← Nat.sub_mul,
    Nat.mul_div_mul_right _ _ (by norm_num)] at hrem
  rw [decodeReply_allowed, Except.ok.injEq]
  apply RateLimitInfo.ext
  · exact UInt32.toNat_inj.mp (hq.inRange ⟨"", ""⟩ c rfl hcost).limit_eq.symm
  · apply UInt32.toNat_inj.mp
    rw [UInt32.toNat_ofNatClamp, allowedInfo, hrem]
    have := (q.burstOffsetNanos.saturatingSub
      (newTat tat c.now q.emissionIntervalNanos c.cost - c.now) / q.emissionIntervalNanos).toUInt32.toNat_lt
    rw [hrem] at this
    omega
  · exact fromMicros_eq_fromNanos hahead

/-- **One check.** Both sides give the same answer and go on agreeing. -/
theorem Agrees.check {sha1 : List UInt8 → Digest} {st : RedisStorage} {key : StorageKey}
    {srv : Redis.Server} (h : Agrees q c.nowUs (srv.keyspace (st.redisKey sha1 key)) tat)
    (hq : InMicros q c.nowUs) (hcost : c.cost.toNat ≤ q.maxBurst.toNat)
    (htime : srv.timeUs = c.nowUs) :
    (st.checkAndUpdate sha1 srv key q c.cost (c.argNow st)).2 =
        .ok (MemoryStorage.checkEntry tat q c.cost c.now).2 ∧
      Agrees q c.nowUs
        ((st.checkAndUpdate sha1 srv key q c.cost (c.argNow st)).1.keyspace (st.redisKey sha1 key))
        (MemoryStorage.checkEntry tat q c.cost c.now).1 := by
  have ⟨x, hx, hxb, hmax⟩ := h
  have hadm : Admits tat c.now q.emissionIntervalNanos q.burstOffsetNanos c.cost ↔
      ¬ c.nowUs + q.burstMicros < max x c.nowUs + q.emissionMicros * c.cost.toNat := by
    rw [admits_iff, toNat_newTat_now hq hcost hxb hmax, hq.toNat_now c rfl, hq.burst_eq]
    omega
  rw [redis_check_eq hq hcost sha1 st key srv htime hx hxb]
  by_cases hlim : c.nowUs + q.burstMicros < max x c.nowUs + q.emissionMicros * c.cost.toNat
  · obtain ⟨hentry, hans⟩ := MemoryStorage.checkEntry_error (fun ha => hadm.mp ha hlim)
    simp only [if_pos hlim, hentry, hans, limitedReply_eq hq hcost hxb hmax hlim]
    exact ⟨trivial, h⟩
  · obtain ⟨hentry, hans⟩ := MemoryStorage.checkEntry_ok (hadm.mpr hlim)
    simp only [if_neg hlim, hentry, hans, allowedReply_eq hq hcost hxb hmax, true_and]
    have hnew := toNat_newTat_now hq hcost hxb hmax
    split_ifs with hfut
    · refine ⟨_, Redis.holds_store srv _ htime, by omega, ?_⟩
      rw [Option.getD_some, hnew, max_eq_left hfut.le]
      exact max_eq_left (Nat.mul_le_mul_right _ hfut.le)
    · -- nothing is stored: the new TAT is the time of the check
      refine ⟨x, hx, hxb, ?_⟩
      have hmaxn : max x c.nowUs = c.nowUs := by omega
      rw [Option.getD_some, hnew, hmaxn]
      exact max_eq_right (Nat.mul_le_mul_right _ (by omega))

end Check

/-! ## Runs -/

theorem Agrees.answers_eq {sha1 : List UInt8 → Digest} {st : RedisStorage} {key : StorageKey}
    {q : Quota} (cs : List ScriptCheck) : ∀ (srv : Redis.Server) (tat : Option Nanos) (n : ℕ),
    Agrees q n (srv.keyspace (st.redisKey sha1 key)) tat →
    (∀ c ∈ cs, n ≤ c.nowUs) → (cs.Pairwise fun a b => a.nowUs ≤ b.nowUs) →
    (∀ c ∈ cs, InMicros q c.nowUs ∧ c.cost.toNat ≤ q.maxBurst.toNat) →
    st.scriptAnswers sha1 key q srv cs = (tatAnswers q tat cs).map .ok := by
  induction cs with
  | nil => intro _ _ _ _ _ _ _; rfl
  | cons c cs ih =>
    intro srv tat n h hn htime hrange
    rw [List.pairwise_cons] at htime
    obtain ⟨hq, hcost⟩ := hrange c (List.mem_cons_self ..)
    obtain ⟨hanswer, hagrees⟩ :=
      ((h.later (hn c (List.mem_cons_self ..))).advance c.dropped).check hq hcost rfl
    rw [← RedisStorage.runCheck] at hanswer hagrees
    have hrest := ih _ _ c.nowUs hagrees htime.1 htime.2
      (fun c' hc' => hrange c' (List.mem_cons_of_mem _ hc'))
    rw [RedisStorage.scriptAnswers, tatAnswers, List.map_cons, hanswer, hrest]

/-- **Agreement.** For a limited quota with a whole number of microseconds per
    request, every run of checks of one key that starts with the key absent, at
    nondecreasing times in microseconds that leave room for two bursts below
    `2⁵³`, with every cost at most `max_burst`: whatever expired keys Redis drops
    and whichever clock is used, the storage answers every check exactly as
    `check_gcra` does over one stored TAT. -/
theorem script_agrees_with_checkGcra (sha1 : List UInt8 → Digest) (st : RedisStorage)
    (key : StorageKey) (quota : Quota) (srv : Redis.Server) (cs : List ScriptCheck)
    (hlimited : quota.isUnlimited = false) (hwhole : 1000 ∣ quota.emissionIntervalNanos.toNat)
    (habsent : srv.keyspace (st.redisKey sha1 key) = none)
    (htime : cs.Pairwise fun a b => a.nowUs ≤ b.nowUs)
    (hcost : ∀ c ∈ cs, c.cost ≤ quota.maxBurst)
    (hroom : ∀ c ∈ cs, c.nowUs + 2 * quota.burstMicros ≤ 2 ^ 53) :
    st.scriptAnswers sha1 key quota srv cs = (tatAnswers quota none cs).map .ok := by
  apply Agrees.answers_eq cs srv none 0 (habsent ▸ agrees_absent quota 0)
    (fun c _ => Nat.zero_le _) htime
  intro c hc
  exact ⟨⟨hlimited, hwhole, hroom c hc⟩, UInt32.le_iff_toNat_le.mp (hcost c hc)⟩

/-- Four requests a second. -/
def fourPerSecond : Quota := ⟨4, .fromSecs 1, Or.inr ⟨by decide, by decide⟩⟩

/-- A burst, a denial, a free request, and a full bucket after the key is gone. -/
def aliceRun : List ScriptCheck :=
  [⟨1, 1790000000000000, 5, fun _ => false⟩, ⟨3, 1790000000000000, 5, fun _ => true⟩,
    ⟨1, 1790000000100000, 6, fun _ => true⟩, ⟨0, 1790000000100001, 6, fun _ => true⟩,
    ⟨4, 1790000001000000, 7, fun _ => true⟩]

/-- The agreement on that run, in which the third request is denied. -/
theorem script_agrees_aliceRun :
    RedisStorage.new.scriptAnswers (fun _ => digestOfAlice) ⟨"alice", "free"⟩ fourPerSecond
        ⟨fun _ => none, 0⟩ aliceRun = (tatAnswers fourPerSecond none aliceRun).map .ok ∧
      (tatAnswers fourPerSecond none aliceRun).map Except.isOk =
        [true, true, false, true, true] := by
  refine ⟨script_agrees_with_checkGcra _ _ _ _ _ _ rfl (by decide) rfl ?_ ?_ ?_, by decide⟩
  · decide
  · decide
  · decide

end TowerRateTier
