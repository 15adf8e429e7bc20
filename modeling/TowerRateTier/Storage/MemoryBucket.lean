import TowerRateTier.Storage.MemoryRate

/-!
# `MemoryStorage` refines a token bucket per key

Specification: one token bucket per key, of capacity `burst_offset`, that starts
full and gains one unit per nanosecond. A request of cost `c` needs
`emission_interval * c` units. `BucketStore.answers` gives the answers of this
reference, in exact integers.

* `memoryStorage_refines_buckets`: with nondecreasing times, costs of at most
  `max_burst` and `now + 2 * burst_offset < 2^64`, `MemoryStorage` gives the
  same answers, field by field; no key influences another; and `remaining` is the
  largest cost that a further request at the same instant can have.
-/

namespace TowerRateTier

open VirtualScheduling

/-! ## Specification -/

/-- The fields of an answer as integers; durations are in nanoseconds. -/
inductive BucketAnswer where
  | allowed (limit remaining resetAfter : ℤ)
  | limited (limit retryAfter resetAfter : ℤ)
deriving DecidableEq, Repr

/-- The fields of a decision of the code. -/
def Decision.view : Decision → BucketAnswer
  | .ok info => .allowed info.limit.toNat info.remaining.toNat info.resetAfter.asNanos
  | .error limited => .limited limited.limit.toNat limited.retryAfter.asNanos limited.resetAfter.asNanos

/-- The capacity of the bucket of a quota. -/
def Quota.capacity (q : Quota) : ℤ := q.emissionIntervalNanos.toNat * q.maxBurst.toNat

/-- The answer of a bucket that holds `level` to a request that needs `need`. -/
def bucketAnswer (q : Quota) (level need : ℤ) : BucketAnswer :=
  if need ≤ level then
    .allowed q.maxBurst.toNat ((level - need) / q.emissionIntervalNanos.toNat)
      (q.capacity - (level - need))
  else .limited q.maxBurst.toNat (need - level) (q.capacity - level)

/-- A bucket for each key. -/
abbrev BucketStore := StorageKey → TokenBucket ℤ

namespace BucketStore

/-- Every bucket is full. -/
def full (quotaOf : StorageKey → Quota) : BucketStore := fun k => ⟨(quotaOf k).capacity, 0⟩

/-- One request on the bucket of its key. -/
def check (bs : BucketStore) (r : CheckRequest) : BucketStore × BucketAnswer :=
  let need : ℤ := r.quota.emissionIntervalNanos.toNat * r.cost.toNat
  let level := (bs r.key).levelAt r.quota.capacity r.now.toNat
  (Function.update bs r.key ((bs r.key).offer r.quota.capacity r.now.toNat need),
    bucketAnswer r.quota level need)

/-- The answers to a sequence of requests. -/
def answers : BucketStore → List CheckRequest → List BucketAnswer
  | _, [] => []
  | bs, r :: rs => (bs.check r).2 :: (bs.check r).1.answers rs

end BucketStore

/-- The request is within the range of the refinement. -/
structure CheckRequest.InRange (r : CheckRequest) : Prop where
  limited : r.quota.isUnlimited = false
  cost_le : r.cost.toNat ≤ r.quota.maxBurst.toNat
  no_overflow : r.now.toNat + 2 * r.quota.burstOffsetNanos.toNat < 2 ^ 64

/-! ## One request -/

/-- In range the burst offset is the capacity of the bucket. -/
theorem CheckRequest.InRange.capacity_eq {r : CheckRequest} (h : r.InRange) :
    r.quota.capacity = r.quota.burstOffsetNanos.toNat := by
  have h1 := h.no_overflow
  have h2 := r.quota.toNat_burstOffsetNanos
  have h3 : r.quota.burstOffsetNanos.toNat =
      r.quota.emissionIntervalNanos.toNat * r.quota.maxBurst.toNat := by omega
  rw [Quota.capacity, h3]
  push_cast; rfl

/-- The cost fits into the capacity. -/
theorem CheckRequest.InRange.need_le {r : CheckRequest} (h : r.InRange) :
    (r.quota.emissionIntervalNanos.toNat * r.cost.toNat : ℤ) ≤ r.quota.capacity := by
  have := h.cost_le
  rw [Quota.capacity]
  gcongr

/-- The range leaves room for one more nanosecond. -/
theorem CheckRequest.InRange.headroom {r : CheckRequest} (h : r.InRange) :
    r.now.toNat + r.quota.burstOffsetNanos.toNat < 2 ^ 64 - 1 := by
  have h1 := h.no_overflow
  have h2 := r.quota.emissionIntervalNanos_pos h.limited
  have h3 := (r.quota.isUnlimited_eq_false_iff).mp h.limited
  have h4 : 0 < r.quota.emissionIntervalNanos.toNat * r.quota.maxBurst.toNat := Nat.mul_pos h2 h3
  rw [r.quota.toNat_burstOffsetNanos] at h1 ⊢
  omega

/-- `limit` is the maximum burst. -/
theorem CheckRequest.InRange.limit_eq {r : CheckRequest} (h : r.InRange) :
    (r.quota.burstOffsetNanos / r.quota.emissionIntervalNanos).toUInt32.toNat =
      r.quota.maxBurst.toNat := by
  have hpos := r.quota.emissionIntervalNanos_pos h.limited
  have hc := h.capacity_eq
  have hb : r.quota.burstOffsetNanos.toNat =
      r.quota.emissionIntervalNanos.toNat * r.quota.maxBurst.toNat := by
    rw [Quota.capacity] at hc; exact_mod_cast hc.symm
  rw [(r.quota.toNat_div_interval le_rfl).1, hb, Nat.mul_div_cancel_left _ hpos]

/-- A bucket and the entry it describes. -/
structure Describes (q : Quota) (b : TokenBucket ℤ) (entry : Option Nanos) : Prop where
  tracks : TokenBucket.Tracks q.capacity b (MemoryStorage.absEntry entry)
  level_nonneg : 0 ≤ b.level

variable {r : CheckRequest} {b : TokenBucket ℤ} {entry : Option Nanos}

/-- The level at the time of the request, from the TAT that `check_gcra` sees. -/
theorem Describes.levelAt_eq (h : Describes r.quota b entry) (hlast : b.last ≤ r.now.toNat) :
    b.levelAt r.quota.capacity r.now.toNat =
      r.quota.capacity - ((currentTat entry r.now).toNat - r.now.toNat) := by
  rw [h.tracks.levelAt_eq hlast, MemoryStorage.arrival_absEntry]

theorem Describes.levelAt_nonneg (h : Describes r.quota b entry) (hr : r.InRange)
    (hlast : b.last ≤ r.now.toNat) : 0 ≤ b.levelAt r.quota.capacity r.now.toNat := by
  have hc := hr.capacity_eq
  have := h.level_nonneg
  unfold TokenBucket.levelAt
  omega

/-- Nothing saturates in the new TAT, whether the request is admitted or not. -/
theorem Describes.newTat_eq (h : Describes r.quota b entry) (hr : r.InRange)
    (hlast : b.last ≤ r.now.toNat) :
    ((newTat entry r.now r.quota.emissionIntervalNanos r.cost).toNat : ℤ) =
      (currentTat entry r.now).toNat + r.quota.emissionIntervalNanos.toNat * r.cost.toNat := by
  have h1 := h.levelAt_nonneg hr hlast
  rw [h.levelAt_eq hlast] at h1
  have h2 := hr.need_le
  have h3 := hr.no_overflow
  rw [hr.capacity_eq] at h1 h2
  have h4 : r.quota.emissionIntervalNanos.toNat * r.cost.toNat ≤
      r.quota.burstOffsetNanos.toNat := by exact_mod_cast h2
  rw [toNat_newTat, min_eq_left (by omega)]
  push_cast; rfl

/-- `check_gcra` admits exactly what the level pays for. -/
theorem Describes.admits_iff (h : Describes r.quota b entry) (hr : r.InRange)
    (hlast : b.last ≤ r.now.toNat) :
    Admits entry r.now r.quota.emissionIntervalNanos r.quota.burstOffsetNanos r.cost ↔
      (r.quota.emissionIntervalNanos.toNat * r.cost.toNat : ℤ) ≤
        b.levelAt r.quota.capacity r.now.toNat := by
  have h1 := h.newTat_eq hr hlast
  rw [TowerRateTier.admits_iff, h.levelAt_eq hlast, hr.capacity_eq]
  omega

/-- **One answer.** Every field of the decision is the one of the bucket. -/
theorem Describes.answer_eq (h : Describes r.quota b entry) (hr : r.InRange)
    (hlast : b.last ≤ r.now.toNat) :
    Decision.view (MemoryStorage.checkEntry entry r.quota r.cost r.now).2 =
      bucketAnswer r.quota (b.levelAt r.quota.capacity r.now.toNat)
        (r.quota.emissionIntervalNanos.toNat * r.cost.toNat) := by
  have hlevel := h.levelAt_eq hlast
  have hnonneg := h.levelAt_nonneg hr hlast
  have hnew := h.newTat_eq hr hlast
  have hcap := hr.capacity_eq
  have hlim := hr.limit_eq
  have hcur := now_le_currentTat entry r.now
  have hnow := now_le_newTat entry r.now r.quota.emissionIntervalNanos r.cost
  have hadm := h.admits_iff hr hlast
  unfold bucketAnswer
  by_cases ha : Admits entry r.now r.quota.emissionIntervalNanos r.quota.burstOffsetNanos r.cost
  · rw [if_pos (hadm.mp ha), (MemoryStorage.checkEntry_ok ha).2]
    rw [hadm] at ha
    generalize newTat entry r.now r.quota.emissionIntervalNanos r.cost = t at *
    have hsub : (t - r.now).toNat = t.toNat - r.now.toNat :=
      UInt64.toNat_sub_of_le _ _ (UInt64.le_iff_toNat_le.mpr hnow)
    have hrem := (r.quota.toNat_div_interval
      (n := r.quota.burstOffsetNanos.saturatingSub (t - r.now))
      (by rw [UInt64.toNat_saturatingSub]; omega)).1
    rw [UInt64.toNat_saturatingSub, hsub] at hrem
    simp only [Decision.view, allowedInfo, hlim, hrem, Duration.fromNanos_asNanos, hsub,
      BucketAnswer.allowed.injEq, true_and]
    refine ⟨?_, by omega⟩
    rw [Int.natCast_div]
    congr 1
    omega
  · rw [if_neg (fun hc => ha (hadm.mpr hc)), (MemoryStorage.checkEntry_error ha).2]
    rw [hadm] at ha
    have hle : r.now.toNat ≤
        ((newTat entry r.now r.quota.emissionIntervalNanos r.cost).saturatingSub
          r.quota.burstOffsetNanos).toNat := by
      rw [UInt64.toNat_saturatingSub]; omega
    simp only [Decision.view, limitedInfo, hlim, Duration.fromNanos_asNanos,
      UInt64.toNat_sub_of_le _ _ (UInt64.le_iff_toNat_le.mpr hle),
      UInt64.toNat_sub_of_le _ _ (UInt64.le_iff_toNat_le.mpr hcur),
      UInt64.toNat_saturatingSub, BucketAnswer.limited.injEq, true_and]
    rw [UInt64.toNat_saturatingSub] at hle
    omega

/-- The bucket goes on describing the entry. -/
theorem Describes.check (h : Describes r.quota b entry) (hr : r.InRange)
    (hlast : b.last ≤ r.now.toNat) :
    Describes r.quota
      (b.offer r.quota.capacity r.now.toNat (r.quota.emissionIntervalNanos.toNat * r.cost.toNat))
      (MemoryStorage.checkEntry entry r.quota r.cost r.now).1 := by
  have hnonneg := h.levelAt_nonneg hr hlast
  have hu := hr.headroom
  refine ⟨?_, ?_⟩
  · rw [MemoryStorage.absEntry_check hu, ← hr.capacity_eq]
    exact h.tracks.offer hlast (by positivity)
  · unfold TokenBucket.offer
    split_ifs with hc
    · simp only; omega
    · exact hnonneg

/-- After an admitted request, `remaining` is the largest cost that a further
    request at the same instant can have. -/
theorem checkEntry_remaining {entry : Option Nanos} {q : Quota} {cost : UInt32} {now : Nanos}
    {info : RateLimitInfo} (hq : q.isUnlimited = false)
    (hu : now.toNat + q.burstOffsetNanos.toNat < 2 ^ 64 - 1)
    (h : (MemoryStorage.checkEntry entry q cost now).2 = .ok info) (c : UInt32) :
    (MemoryStorage.checkEntry (MemoryStorage.checkEntry entry q cost now).1 q c now).2.isOk = true ↔
      c.toNat ≤ info.remaining.toNat := by
  have ha : Admits entry now q.emissionIntervalNanos q.burstOffsetNanos cost := by
    rw [← MemoryStorage.checkEntry_isOk_iff, h]; rfl
  have hle := (admits_iff _ _ _ _ _).mp ha
  have hnow := now_le_newTat entry now q.emissionIntervalNanos cost
  rw [MemoryStorage.checkEntry_isOk_iff, (MemoryStorage.checkEntry_ok ha).1, admits_iff_exact hu]
  rw [(MemoryStorage.checkEntry_ok ha).2] at h
  obtain rfl := Except.ok.inj h
  generalize newTat entry now q.emissionIntervalNanos cost = t at *
  have hsub : (t - now).toNat = t.toNat - now.toNat :=
    UInt64.toNat_sub_of_le _ _ (UInt64.le_iff_toNat_le.mpr hnow)
  have hrem := (q.toNat_div_interval (n := q.burstOffsetNanos.saturatingSub (t - now))
    (by rw [UInt64.toNat_saturatingSub]; omega)).1
  rw [UInt64.toNat_saturatingSub, hsub] at hrem
  rw [allowedInfo, hrem, Nat.le_div_iff_mul_le (q.emissionIntervalNanos_pos hq), toNat_currentTat,
    Option.getD_some, mul_comm c.toNat]
  omega

/-! ## Runs -/

/-- Every bucket describes the entry of its key, and was last used by `now`. -/
def DescribesAll (quotaOf : StorageKey → Quota) (bs : BucketStore) (st : MemoryStorage)
    (now : Nanos) : Prop :=
  ∀ k, Describes (quotaOf k) (bs k) (st.state k) ∧ (bs k).last ≤ now.toNat

theorem describesAll_full (quotaOf : StorageKey → Quota) (now : Nanos) :
    DescribesAll quotaOf (BucketStore.full quotaOf) MemoryStorage.new now :=
  fun k => ⟨⟨TokenBucket.tracks_full _ _, by simp only [BucketStore.full, Quota.capacity]; positivity⟩,
    Int.natCast_nonneg _⟩

/-- One request keeps the simulation. -/
theorem DescribesAll.check {quotaOf : StorageKey → Quota} {bs : BucketStore} {st : MemoryStorage}
    {r : CheckRequest} (h : DescribesAll quotaOf bs st r.now) (hquota : r.quota = quotaOf r.key)
    (hr : r.InRange) : DescribesAll quotaOf (bs.check r).1 (st.check r).1 r.now := by
  intro k
  obtain ⟨hd, hl⟩ := h k
  by_cases hk : r.key = k
  · subst hk
    rw [← hquota] at hd ⊢
    rw [MemoryStorage.check_state_self, BucketStore.check]
    simp only [Function.update_self]
    refine ⟨hd.check hr hl, ?_⟩
    unfold TokenBucket.offer
    split_ifs <;> exact le_rfl
  · rw [MemoryStorage.check_state_ne st r hk, BucketStore.check]
    simp only [Function.update_of_ne (Ne.symm hk)]
    exact ⟨hd, hl⟩

theorem DescribesAll.answers_eq {quotaOf : StorageKey → Quota} (rs : List CheckRequest) :
    ∀ (bs : BucketStore) (st : MemoryStorage) (now : Nanos), DescribesAll quotaOf bs st now →
      (∀ r ∈ rs, r.quota = quotaOf r.key) → (∀ r ∈ rs, r.InRange) → (∀ r ∈ rs, now ≤ r.now) →
      rs.Pairwise (fun a b => a.now ≤ b.now) →
      (st.answers rs).map Decision.view = bs.answers rs := by
  induction rs with
  | nil => intro bs st now _ _ _ _ _; rfl
  | cons r rs ih =>
    intro bs st now h hquota hrange hnow htime
    rw [List.pairwise_cons] at htime
    have hr := hrange r List.mem_cons_self
    have hq := hquota r List.mem_cons_self
    have h' : DescribesAll quotaOf bs st r.now := by
      intro k
      have := UInt64.le_iff_toNat_le.mp (hnow r List.mem_cons_self)
      exact ⟨(h k).1, le_trans (h k).2 (by exact_mod_cast this)⟩
    have hd := (h' r.key).1
    rw [← hq] at hd
    rw [MemoryStorage.answers, BucketStore.answers, List.map_cons, MemoryStorage.check_snd,
      hd.answer_eq hr (h' r.key).2]
    congr 1
    exact ih _ _ r.now (h'.check hq hr) (fun x hx => hquota x (List.mem_cons_of_mem _ hx))
      (fun x hx => hrange x (List.mem_cons_of_mem _ hx)) htime.1 htime.2

/-- **Refinement.** On requests in range with nondecreasing times, each key with
    one quota, `MemoryStorage` gives the answers of a token bucket per key; the
    answers to a key are those it would get alone; and after an admitted
    request `remaining` is the largest cost a further one at the same instant
    can have. (A denied request and one of cost 0 leave the level of the
    reference as it is.) -/
theorem memoryStorage_refines_buckets (quotaOf : StorageKey → Quota) (rs : List CheckRequest)
    (hquota : ∀ r ∈ rs, r.quota = quotaOf r.key) (hrange : ∀ r ∈ rs, r.InRange)
    (htime : rs.Pairwise fun a b => a.now ≤ b.now) :
    (MemoryStorage.new.answers rs).map Decision.view = (BucketStore.full quotaOf).answers rs ∧
      (∀ k, MemoryStorage.new.answersAt k rs =
        MemoryStorage.new.answers (rs.filter fun r => r.key = k)) ∧
      ∀ pre r post info c, rs = pre ++ r :: post →
        ((MemoryStorage.new.afterChecks pre).check r).2 = .ok info →
        ((((MemoryStorage.new.afterChecks pre).check r).1.check { r with cost := c }).2.isOk = true ↔
          c.toNat ≤ info.remaining.toNat) := by
  refine ⟨?_, fun k => MemoryStorage.answersAt_eq_answers k rs _ _ rfl, ?_⟩
  · exact DescribesAll.answers_eq rs _ _ 0 (describesAll_full quotaOf 0) hquota hrange
      (fun r _ => UInt64.le_iff_toNat_le.mpr (Nat.zero_le _)) htime
  · rintro pre r post info c rfl hok
    have hr : r.InRange := hrange r (by simp)
    rw [MemoryStorage.check_snd] at hok
    rw [MemoryStorage.check_snd]
    simp only
    rw [MemoryStorage.check_state_self]
    exact checkEntry_remaining hr.limited hr.headroom hok c

/-- Two keys with a quota each. -/
def twoQuotas (k : StorageKey) : Quota :=
  if k.tier = "pro" then ⟨5, .fromNanos 50, Or.inr ⟨by decide, by decide⟩⟩
  else ⟨2, .fromNanos 20, .two_per_twenty_nanos⟩

/-- A run over both keys: a burst, a denial, a request of cost 0 and a refill. -/
def twoKeyRun : List CheckRequest :=
  [⟨⟨"u", "free"⟩, twoQuotas ⟨"u", "free"⟩, 2, 100⟩, ⟨⟨"u", "free"⟩, twoQuotas ⟨"u", "free"⟩, 1, 100⟩,
    ⟨⟨"v", "pro"⟩, twoQuotas ⟨"v", "pro"⟩, 3, 104⟩, ⟨⟨"u", "free"⟩, twoQuotas ⟨"u", "free"⟩, 0, 105⟩,
    ⟨⟨"u", "free"⟩, twoQuotas ⟨"u", "free"⟩, 1, 115⟩]

/-- The simulation on that run: the second request has to wait for 10 ns. -/
theorem memoryStorage_refines_buckets_two_keys :
    (MemoryStorage.new.answers twoKeyRun).map Decision.view =
        (BucketStore.full twoQuotas).answers twoKeyRun ∧
      ((BucketStore.full twoQuotas).answers twoKeyRun)[1]? = some (.limited 2 10 20) := by
  refine ⟨(memoryStorage_refines_buckets twoQuotas twoKeyRun (by decide) ?_ (by decide)).1,
    by decide⟩
  intro r hr
  simp only [twoKeyRun, List.mem_cons, List.not_mem_nil, or_false] at hr
  rcases hr with rfl | rfl | rfl | rfl | rfl
  all_goals exact ⟨by decide, by decide, by decide⟩

end TowerRateTier
