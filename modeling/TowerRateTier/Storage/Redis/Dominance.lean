import TowerRateTier.Storage.MemoryRate
import TowerRateTier.Storage.Redis.Checks

/-!
# A quota is never looser in Redis

The script rounds the emission interval up to whole microseconds and computes
the burst from the rounded interval. So its intervals are longer, but so is its
burst in time, and its TAT is not always above the one of `check_gcra`.

Counted in requests, it is: both stores are virtual schedules with units of
different lengths, and the one of the script is never less far behind. What it
admits fits into the other one too.

* `Covers.check`: one check keeps the relation, and `check_gcra` admits what the
  script admits.
* `redis_never_looser`: the requests that the script admits in a run, replayed
  alone against a `MemoryStorage`, are all admitted there.
-/

namespace TowerRateTier

open VirtualScheduling (Dominates arrival)

/-! ## The requests that the script admits -/

/-- The storage answered, and admitted the request. -/
def StorageResult.admitted : StorageResult → Bool
  | .ok decision => decision.isOk
  | .error _ => false

/-- The requests of a run that the script admits, on the clock of `MemoryStorage`. -/
def RedisStorage.admittedRequests (sha1 : List UInt8 → Digest) (st : RedisStorage)
    (key : StorageKey) (quota : Quota) : Redis.Server → List ScriptCheck → List CheckRequest
  | _, [] => []
  | srv, c :: cs =>
    let later := admittedRequests sha1 st key quota (st.runCheck sha1 key quota srv c).1 cs
    if (st.runCheck sha1 key quota srv c).2.admitted then ⟨key, quota, c.cost, c.now⟩ :: later
    else later

section AdmittedRequests

variable {sha1 : List UInt8 → Digest} {st : RedisStorage} {key : StorageKey} {quota : Quota}
  {srv srv' : Redis.Server} {c : ScriptCheck} (cs : List ScriptCheck)

theorem admittedRequests_of_ok {info : RateLimitInfo}
    (h : st.runCheck sha1 key quota srv c = (srv', .ok (.ok info))) :
    st.admittedRequests sha1 key quota srv (c :: cs) =
      ⟨key, quota, c.cost, c.now⟩ :: st.admittedRequests sha1 key quota srv' cs := by
  have hadm : StorageResult.admitted (.ok (.ok info)) = true := rfl
  rw [RedisStorage.admittedRequests, h]
  exact if_pos hadm

theorem admittedRequests_of_error {limited : RateLimited}
    (h : st.runCheck sha1 key quota srv c = (srv', .ok (.error limited))) :
    st.admittedRequests sha1 key quota srv (c :: cs) =
      st.admittedRequests sha1 key quota srv' cs := by
  have hadm : ¬ StorageResult.admitted (.ok (.error limited)) = true := Bool.false_ne_true
  rw [RedisStorage.admittedRequests, h]
  exact if_neg hadm

end AdmittedRequests

/-! ## One check -/

/-- The key holds a TAT that is, in requests, at least as far ahead of `n` as the
    TAT of `check_gcra` is of the same time in nanoseconds. -/
def Covers (q : Quota) (n : ℕ) (entry : Option Redis.Entry) (tat : Option Nanos) : Prop :=
  ∃ x : ℕ, Redis.Holds entry x ∧ x ≤ n + q.scriptBurst ∧
    Dominates (q.scriptInterval : ℤ) q.emissionIntervalNanos.toNat (some (x : ℤ)) n
      (MemoryStorage.absEntry tat) (n * 1000)

variable {q : Quota} {n : ℕ} {tat : Option Nanos}

theorem covers_absent (q : Quota) (n : ℕ) : Covers q n none none :=
  ⟨0, .absent, Nat.zero_le _, VirtualScheduling.dominates_none _ (Int.natCast_nonneg _) _ _ _⟩

theorem Covers.later {entry : Option Redis.Entry} (h : Covers q n entry tat) {n' : ℕ}
    (hn : n ≤ n') : Covers q n' entry tat := by
  obtain ⟨x, hx, hxb, hdom⟩ := h
  obtain ⟨d, rfl⟩ := Nat.exists_eq_add_of_le hn
  have hle : (q.emissionIntervalNanos.toNat : ℤ) ≤ 1000 * q.scriptInterval := by
    exact_mod_cast q.emissionIntervalNanos_le
  have hlater := hdom.later (Int.natCast_nonneg _) (Int.natCast_nonneg _) (by norm_num) hle
    (Int.natCast_nonneg d)
  refine ⟨x, hx, by omega, ?_⟩
  have hnow : ((n + d : ℕ) : ℤ) * 1000 = n * 1000 + 1000 * d := by push_cast; ring
  rw [hnow, Nat.cast_add]
  exact hlater

theorem arrival_eq_of_max_eq {x y : ℕ} (h : max y n = max x n) :
    arrival (some (y : ℤ)) n = arrival (some (x : ℤ)) n := by
  simp only [arrival, Option.getD_some]
  exact_mod_cast h

theorem Covers.advance {srv : Redis.Server} {key : String} (h : Covers q n (srv.keyspace key) tat)
    (dropped : String → Bool) : Covers q n ((srv.advance n dropped).keyspace key) tat := by
  obtain ⟨x, hx, hxb, hdom⟩ := h
  obtain ⟨y, hy, hyx, hyn⟩ := hx.advance n dropped
  exact ⟨y, hy, hyx.trans hxb, hdom.congr_left (arrival_eq_of_max_eq hyn)⟩

section Check

variable {c : ScriptCheck} {x : ℕ}

/-- Nothing saturates in `check_gcra`. -/
theorem InScriptRange.headroom (hq : InScriptRange q c.nowUs) :
    c.now.toNat + q.burstOffsetNanos.toNat < 2 ^ 64 - 1 := by
  have h1 := hq.room
  have h2 := hq.burst_le.2
  rw [hq.toNat_now c rfl]
  omega

/-- What the script admits fits, in units of its interval. -/
theorem fits_script (hlim : ¬ c.nowUs + q.scriptBurst < max x c.nowUs + q.scriptInterval * c.cost.toNat) :
    VirtualScheduling.Fits (q.scriptInterval * q.maxBurst.toNat : ℤ) (some (x : ℤ)) c.nowUs
      (q.scriptInterval * c.cost.toNat) := by
  rw [not_lt, Quota.scriptBurst] at hlim
  simp only [VirtualScheduling.Fits, arrival, Option.getD_some]
  exact_mod_cast hlim

/-- What fits into the schedule of the script is admitted by `check_gcra`, and the
    script stays ahead. -/
theorem dominates_checkEntry (hq : InScriptRange q c.nowUs)
    (hdom : Dominates (q.scriptInterval : ℤ) q.emissionIntervalNanos.toNat (some (x : ℤ)) c.nowUs
      (MemoryStorage.absEntry tat) (c.nowUs * 1000))
    (hlim : ¬ c.nowUs + q.scriptBurst < max x c.nowUs + q.scriptInterval * c.cost.toNat) :
    (MemoryStorage.checkEntry tat q c.cost c.now).2.isOk = true ∧
      Dominates (q.scriptInterval : ℤ) q.emissionIntervalNanos.toNat
        (some ((max x c.nowUs + q.scriptInterval * c.cost.toNat : ℕ) : ℤ)) c.nowUs
        (MemoryStorage.absEntry (MemoryStorage.checkEntry tat q c.cost c.now).1)
        (c.nowUs * 1000) := by
  have hcoarse : (0 : ℤ) < q.scriptInterval := by exact_mod_cast q.scriptInterval_pos
  have hnow : (c.now.toNat : ℤ) = c.nowUs * 1000 := by rw [hq.toNat_now c rfl]; push_cast; rfl
  have hburst : (q.burstOffsetNanos.toNat : ℤ) =
      q.emissionIntervalNanos.toNat * q.maxBurst.toNat := by
    rw [hq.burst_le.1]; push_cast; rfl
  have hfits := hdom.fits hcoarse (Int.natCast_nonneg _) (fits_script hlim)
  rw [← hburst, ← hnow] at hfits
  constructor
  · rw [MemoryStorage.checkEntry_isOk_iff, MemoryStorage.admits_iff_fits _ _ hq.headroom]
    exact hfits
  · have hoffer := hdom.offer hcoarse.le (Int.natCast_nonneg _) (Int.natCast_nonneg c.cost.toNat)
    have hnew : arrival (some (x : ℤ)) c.nowUs + q.scriptInterval * c.cost.toNat =
        ((max x c.nowUs + q.scriptInterval * c.cost.toNat : ℕ) : ℤ) := by
      push_cast; rfl
    rw [hnew, ← hnow] at hoffer
    rw [MemoryStorage.absEntry_check hq.headroom, VirtualScheduling.step_offer, if_pos hfits, ← hnow]
    exact hoffer

/-- **One check.** A denial leaves everything as it is. What the script admits is
    admitted by `check_gcra`, and the relation goes on. -/
theorem Covers.check {sha1 : List UInt8 → Digest} {st : RedisStorage} {key : StorageKey}
    {srv : Redis.Server} (h : Covers q c.nowUs (srv.keyspace (st.redisKey sha1 key)) tat)
    (hq : InScriptRange q c.nowUs) (hcost : c.cost.toNat ≤ q.maxBurst.toNat)
    (htime : srv.timeUs = c.nowUs) :
    (∃ limited, st.checkAndUpdate sha1 srv key q c.cost (c.argNow st) =
        (srv, .ok (.error limited))) ∨
      ∃ srv' info, st.checkAndUpdate sha1 srv key q c.cost (c.argNow st) = (srv', .ok (.ok info)) ∧
        (MemoryStorage.checkEntry tat q c.cost c.now).2.isOk = true ∧
        Covers q c.nowUs (srv'.keyspace (st.redisKey sha1 key))
          (MemoryStorage.checkEntry tat q c.cost c.now).1 := by
  obtain ⟨x, hx, hxb, hdom⟩ := h
  rw [hq.checkAndUpdate_eq hcost sha1 st key srv htime hx hxb]
  by_cases hlim : c.nowUs + q.scriptBurst < max x c.nowUs + q.scriptInterval * c.cost.toNat
  · left
    simp only [if_pos hlim, decodeReply_limited]
    exact ⟨_, rfl⟩
  · right
    obtain ⟨hok, hdom'⟩ := dominates_checkEntry hq hdom hlim
    simp only [if_neg hlim, decodeReply_allowed]
    refine ⟨_, _, rfl, hok, ?_⟩
    split_ifs with hfut
    · exact ⟨max x c.nowUs + q.scriptInterval * c.cost.toNat, Redis.holds_store srv _ htime,
        not_lt.mp hlim, hdom'⟩
    · -- nothing is stored: the new TAT is the time of the check
      exact ⟨x, hx, hxb, hdom'.congr_left (arrival_eq_of_max_eq (by omega))⟩

end Check

/-! ## Runs -/

theorem Covers.admitted_allowed {sha1 : List UInt8 → Digest} {st : RedisStorage} {key : StorageKey}
    (cs : List ScriptCheck) : ∀ (srv : Redis.Server) (mem : MemoryStorage) (n : ℕ),
    Covers q n (srv.keyspace (st.redisKey sha1 key)) (mem.state key) →
    (∀ c ∈ cs, n ≤ c.nowUs) → (cs.Pairwise fun a b => a.nowUs ≤ b.nowUs) →
    (∀ c ∈ cs, InScriptRange q c.nowUs ∧ c.cost.toNat ≤ q.maxBurst.toNat) →
    ∀ answer ∈ mem.answers (st.admittedRequests sha1 key q srv cs), answer.isOk = true := by
  induction cs with
  | nil =>
    intro _ _ _ _ _ _ _ answer hanswer
    rw [RedisStorage.admittedRequests, MemoryStorage.answers] at hanswer
    exact absurd hanswer List.not_mem_nil
  | cons c cs ih =>
    intro srv mem n h hn htime hrange
    rw [List.pairwise_cons] at htime
    obtain ⟨hq, hcost⟩ := hrange c List.mem_cons_self
    have hrange' := fun c' hc' => hrange c' (List.mem_cons_of_mem c hc')
    have hcovers := (h.later (hn c List.mem_cons_self)).advance c.dropped
    rcases hcovers.check hq hcost rfl with ⟨limited, heq⟩ | ⟨srv', info, heq, hok, hcovers'⟩
    · rw [admittedRequests_of_error cs heq]
      exact ih _ mem c.nowUs hcovers htime.1 htime.2 hrange'
    · rw [admittedRequests_of_ok cs heq]
      have hmem : Covers q c.nowUs (srv'.keyspace (st.redisKey sha1 key))
          ((mem.check ⟨key, q, c.cost, c.now⟩).1.state key) := by
        rw [MemoryStorage.check_state_self mem ⟨key, q, c.cost, c.now⟩]
        exact hcovers'
      intro answer hanswer
      rw [MemoryStorage.answers, List.mem_cons, MemoryStorage.check_snd] at hanswer
      rcases hanswer with rfl | hanswer
      · exact hok
      · exact ih _ _ c.nowUs hmem htime.1 htime.2 hrange' answer hanswer

/-- **Never looser.** For every limited quota, whatever its emission interval, and
    every run of checks of one key that starts with the key absent, at
    nondecreasing times that leave room for two bursts of the script below `2⁵³`,
    with every cost at most `max_burst`: the requests that the script admits are
    all admitted when they are replayed alone, in order, with the same costs and
    times, against a new `MemoryStorage` with the same quota. The run may drop any
    expired keys and use either clock. -/
theorem redis_never_looser (sha1 : List UInt8 → Digest) (st : RedisStorage) (key : StorageKey)
    (quota : Quota) (srv : Redis.Server) (cs : List ScriptCheck)
    (hlimited : quota.isUnlimited = false)
    (habsent : srv.keyspace (st.redisKey sha1 key) = none)
    (htime : cs.Pairwise fun a b => a.nowUs ≤ b.nowUs)
    (hcost : ∀ c ∈ cs, c.cost ≤ quota.maxBurst)
    (hroom : ∀ c ∈ cs, c.nowUs + 2 * quota.scriptBurst ≤ 2 ^ 53) :
    ∀ answer ∈ MemoryStorage.new.answers (st.admittedRequests sha1 key quota srv cs),
      answer.isOk = true := by
  apply Covers.admitted_allowed cs srv .new 0 (habsent ▸ covers_absent quota 0)
    (fun c _ => Nat.zero_le _) htime
  intro c hc
  exact ⟨⟨hlimited, hroom c hc⟩, UInt32.le_iff_toNat_le.mp (hcost c hc)⟩

/-- A request every 250 nanoseconds, which the script rounds up to a microsecond. -/
def fourPerMicrosecond : Quota := ⟨4, .fromNanos 1000, Or.inr ⟨by decide, by decide⟩⟩

/-- A burst, a denial, and two requests for which the bucket of `check_gcra` is
    fuller than the one of the script. -/
def roundedRun : List ScriptCheck :=
  [⟨3, 1790000000000000, 5, fun _ => false⟩, ⟨2, 1790000000000000, 5, fun _ => false⟩,
    ⟨2, 1790000000000001, 6, fun _ => false⟩, ⟨1, 1790000000000003, 7, fun _ => true⟩]

/-- The comparison on that run, whose interval is no whole number of microseconds. -/
theorem redis_never_looser_roundedRun :
    ¬ 1000 ∣ fourPerMicrosecond.emissionIntervalNanos.toNat ∧
      fourPerMicrosecond.scriptInterval = 1 ∧
      ∀ answer ∈ MemoryStorage.new.answers
        (RedisStorage.new.admittedRequests (fun _ => digestOfAlice) ⟨"alice", "free"⟩
          fourPerMicrosecond ⟨fun _ => none, 0⟩ roundedRun), answer.isOk = true := by
  refine ⟨by decide, by decide, ?_⟩
  apply redis_never_looser
  · rfl
  · rfl
  · decide
  · decide
  · decide

end TowerRateTier
