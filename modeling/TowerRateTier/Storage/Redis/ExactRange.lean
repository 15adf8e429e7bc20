import TowerRateTier.Storage.Redis.Agreement
import TowerRateTier.Storage.Redis.Recovery

/-!
# The exact range of the script

Evaluated over the integers, `fl = id`, the script never leaves the range in which
Lua's doubles are exact on a call that it does not refuse. So the guard, which
comes after the clamp and the product, covers both, and all differences after it.

* `exactRun_of_ok`: every number of an accepted call, for any arguments.
* `script_exact_range`: the calls of `RedisStorage`, which are accepted while the
  time leaves room for two bursts below `2⁵³`.
-/

namespace TowerRateTier.Redis

/-! ## The numbers of a call -/

/-- The numbers that the script computes from its arguments and the TAT (lines
    133–152), without the quotients, which are rounded to an integer at once. -/
structure Values where
  tat : ℚ
  increment : ℚ
  room : ℚ
  newTat : ℚ
  allowAt : ℚ
  retryAfter : ℚ
  resetAfter : ℚ
  ahead : ℚ
  left : ℚ

/-- The values over the integers. -/
def values (args : Args) (tat : ℚ) : Values :=
  let increment := args.emissionInterval * args.cost
  let newTat := tat + increment
  let allowAt := newTat - args.burstOffset
  { tat
    increment
    room := maxExact - tat
    newTat
    allowAt
    retryAfter := allowAt - args.now
    resetAfter := tat - args.now
    ahead := newTat - args.now
    left := args.burstOffset - (newTat - args.now) }

def Values.all (v : Values) : List ℚ :=
  [v.tat, v.increment, v.room, v.newTat, v.allowAt, v.retryAfter, v.resetAfter, v.ahead, v.left]

/-- The script computes no others. -/
theorem decision_values (srv : Server) (args : Args) (tat : ℚ) (capped : Bool) :
    decision id srv args tat capped =
      let v := values args tat
      if v.increment > v.room then
        (srv, .error (fail "time values exceed the exact range of Lua numbers"))
      else if v.allowAt > args.now then
        let reply : Reply :=
          { allowed := 0
            remaining := 0
            retryAfterUs := redisInteger v.retryAfter
            resetAfterUs := redisInteger v.resetAfter }
        if capped then setAndReturn srv args.key v.tat (ceilMs id v.resetAfter) reply
        else (srv, .ok reply)
      else
        let reply : Reply :=
          { allowed := 1
            remaining := redisInteger ⌊v.left / args.emissionInterval⌋
            retryAfterUs := 0
            resetAfterUs := redisInteger v.ahead }
        if v.newTat > args.now then setAndReturn srv args.key v.newTat (ceilMs id v.ahead) reply
        else (srv, .ok reply) :=
  rfl

/-- An integer that a double represents, as all integers up to it. -/
def InExactRange (x : ℚ) : Prop := ∃ k : ℤ, x = k ∧ |k| ≤ 2 ^ 53

/-- The integers of a reply. -/
def Reply.all (reply : Reply) : List ℤ :=
  [reply.allowed, reply.remaining, reply.retryAfterUs, reply.resetAfterUs]

/-- A call that is answered with `reply` has no number beyond the exact range: among its
    arguments, the values computed from them, the reply and what is stored. -/
def ExactRun (srv : Server) (keys argv : List String) (reply : Reply) : Prop :=
  ∃ (args : Args) (tat : ℚ) (capped : Bool),
    readArgs id srv keys argv = .ok args ∧ storedTat id srv args = (tat, capped) ∧
    (∀ x ∈ [args.emissionInterval, args.burstOffset, args.cost, args.now], InExactRange x) ∧
    (∀ x ∈ (values args tat).all, InExactRange x) ∧ (∀ k ∈ reply.all, |k| ≤ 2 ^ 53) ∧
    ((gcra id srv keys argv).1 = srv ∨ ∃ value px : ℕ,
      (gcra id srv keys argv).1 = srv.put args.key (toString value) px ∧
      value ≤ 2 ^ 53 ∧ px ≤ 2 ^ 53)

theorem inExactRange_intCast {k : ℤ} (h : |k| ≤ 2 ^ 53) : InExactRange k := ⟨k, rfl, h⟩

theorem inExactRange_natCast {n : ℕ} (h : n < 2 ^ 53) : InExactRange n := by
  have habs : |(n : ℤ)| ≤ 2 ^ 53 := by
    rw [abs_of_nonneg (Int.natCast_nonneg n)]
    omega
  exact inExactRange_intCast habs

namespace Accepted

variable {srv : Server} {keys argv : List String}

theorem inExactRange_args (a : Accepted id srv keys argv) :
    ∀ x ∈ [(a.numbers.args a.key).emissionInterval, (a.numbers.args a.key).burstOffset,
      (a.numbers.args a.key).cost, (a.numbers.args a.key).now], InExactRange x := by
  have hle := a.numbers.interval_le_burst
  have hburst := a.numbers.burst_lt
  intro x hx
  simp only [Numbers.args, List.mem_cons, List.not_mem_nil, or_false] at hx
  rcases hx with rfl | rfl | rfl | rfl
  · exact inExactRange_natCast (by omega)
  · exact inExactRange_natCast hburst
  · exact inExactRange_natCast a.numbers.cost_lt
  · exact inExactRange_natCast a.numbers.now_lt

/-- The values of an accepted call, as integers. -/
def intValues (a : Accepted id srv keys argv) : List ℤ :=
  [a.tat, a.increment, 2 ^ 53 - a.tat, a.newTat, a.newTat - a.numbers.burstOffset,
    a.newTat - a.numbers.burstOffset - a.numbers.now, a.tat - a.numbers.now,
    a.newTat - a.numbers.now, a.numbers.burstOffset - (a.newTat - a.numbers.now)]

theorem values_eq (a : Accepted id srv keys argv) :
    (values (a.numbers.args a.key) a.tat).all = a.intValues.map Int.cast := by
  have hinc : (a.numbers.emissionInterval : ℚ) * a.numbers.cost = a.increment := a.increment_eq
  simp only [values, Values.all, Numbers.args, hinc, intValues, maxExact, newTat, List.map_cons,
    List.map_nil]
  push_cast
  rfl

theorem abs_intValues_le (a : Accepted id srv keys argv) :
    ∀ k ∈ a.intValues, |k| ≤ 2 ^ 53 := by
  have h1 := a.now_le_tat
  have h2 := a.tat_le_full
  have h3 := a.sum_le
  have h4 := a.numbers.burst_lt
  have h5 := a.numbers.now_lt
  intro k hk
  simp only [intValues, newTat, List.mem_cons, List.not_mem_nil, or_false, Nat.cast_add] at hk
  rw [abs_le]
  rcases hk with rfl | rfl | rfl | rfl | rfl | rfl | rfl | rfl | rfl <;> omega

theorem inExactRange_values (a : Accepted id srv keys argv) :
    ∀ x ∈ (values (a.numbers.args a.key) a.tat).all, InExactRange x := by
  intro x hx
  rw [a.values_eq] at hx
  obtain ⟨k, hk, rfl⟩ := List.mem_map.mp hx
  exact inExactRange_intCast (a.abs_intValues_le k hk)

/-- What is answered is in range. -/
theorem abs_reply_le (a : Accepted id srv keys argv) {reply : Reply}
    (h : (gcra id srv keys argv).2 = .ok reply) : ∀ k ∈ reply.all, |k| ≤ 2 ^ 53 := by
  have h1 := a.now_le_tat
  have h2 := a.sum_le
  have h3 := a.numbers.burst_lt
  have hdiv := Nat.div_le_self (a.numbers.burstOffset - (a.newTat - a.numbers.now))
    a.numbers.emissionInterval
  rw [a.gcra_eq Double.integerRounding_id.toIntegerExact] at h
  intro k hk
  rw [abs_le]
  by_cases hlim : a.Limited
  · rw [if_pos hlim] at h
    obtain rfl := Except.ok.inj h
    simp only [Reply.all, newTat, List.mem_cons, List.not_mem_nil, or_false] at hk
    rcases hk with rfl | rfl | rfl | rfl <;> omega
  · rw [if_neg hlim] at h
    obtain rfl := Except.ok.inj h
    simp only [newTat] at hdiv
    simp only [Reply.all, allowedReply, newTat, List.mem_cons, List.not_mem_nil, or_false] at hk
    generalize (a.numbers.burstOffset - (a.tat + a.increment - a.numbers.now)) /
      a.numbers.emissionInterval = remaining at hdiv hk
    rcases hk with rfl | rfl | rfl | rfl <;> omega

/-- So is what is stored. -/
theorem stored_le (a : Accepted id srv keys argv) :
    (gcra id srv keys argv).1 = srv ∨ ∃ value px : ℕ,
      (gcra id srv keys argv).1 = srv.put a.key (toString value) px ∧
      value ≤ 2 ^ 53 ∧ px ≤ 2 ^ 53 := by
  rcases a.eq_or_stores Double.integerRounding_id.toIntegerExact with hsame | ⟨tat, htat, hstores⟩
  · exact Or.inl hsame
  · right
    have hpx := ttlMs_le (tat - a.numbers.now)
    exact ⟨tat, ttlMs (tat - a.numbers.now), hstores, htat, by omega⟩

end Accepted

/-- **Any call.** What is not refused is in the exact range. -/
theorem exactRun_of_ok {srv : Server} {keys argv : List String} {reply : Reply}
    (h : (gcra id srv keys argv).2 = .ok reply) : ExactRun srv keys argv reply := by
  rcases gcra_refused_or_accepted Double.integerRounding_id srv keys argv with
    ⟨reason, hrefused⟩ | haccepted
  · rw [hrefused] at h
    exact absurd h (by simp)
  · obtain ⟨a⟩ := haccepted
    exact ⟨a.numbers.args a.key, a.tat, a.capped, a.args_eq, a.tat_eq, a.inExactRange_args,
      a.inExactRange_values, a.abs_reply_le h, a.stored_le⟩

/-! ## The calls of the storage -/

/-- The time of a call of the script, in microseconds. -/
def callTime (st : RedisStorage) (srv : Server) (now : Nanos) : ℕ :=
  if st.clientClock then (now / 1000).toNat else srv.timeUs

section ScriptCall

variable (sha1 : List UInt8 → Digest) (st : RedisStorage) (key : StorageKey) (q : Quota)
  (cost : UInt32) (now : Nanos) (srv : Server)

/-- With room for two bursts the burst offset does not saturate. -/
theorem inScriptRange_of_room (hq : q.isUnlimited = false)
    (hroom : callTime st srv now + 2 * (st.scriptCall sha1 key q cost now).burstOffset.toNat ≤
      2 ^ 53) : InScriptRange q (callTime st srv now) where
  limited := hq
  room := by
    have hburst : (st.scriptCall sha1 key q cost now).burstOffset.toNat =
        min q.scriptBurst (2 ^ 64 - 1) := by
      rw [RedisStorage.scriptCall, UInt64.toNat_saturatingMul, UInt32.toNat_toUInt64]
      rfl
    omega

theorem scriptNow_callTime {fl : ℚ → ℚ} (hfl : Double.IntegerExact fl)
    (hlt : callTime st srv now < 2 ^ 53) :
    scriptNow fl srv (st.scriptCall sha1 key q cost now).now = some (callTime st srv now : ℚ) := by
  unfold callTime at hlt ⊢
  unfold RedisStorage.scriptCall
  split_ifs at hlt ⊢ with hclock
  · exact scriptNow_natCast hfl srv hlt
  · exact scriptNow_clock hfl srv hlt

/-- No stored value makes the script refuse a call that has room. -/
theorem scriptCall_ok {fl : ℚ → ℚ} (hfl : Double.IntegerExact fl) (hq : q.isUnlimited = false)
    (hcost : cost ≤ q.maxBurst)
    (hroom : callTime st srv now + 2 * (st.scriptCall sha1 key q cost now).burstOffset.toNat ≤
      2 ^ 53) :
    ∃ reply, (gcra fl srv [(st.scriptCall sha1 key q cost now).key]
      (st.scriptCall sha1 key q cost now).argv).2 = .ok reply := by
  have hrange := inScriptRange_of_room sha1 st key q cost now srv hq hroom
  have hburst := hrange.interval_le_burst
  have hpos := q.scriptInterval_pos
  have hmax := hrange.room
  have hvalid : Request.Valid ⟨st.redisKey sha1 key, q.scriptInterval, q.scriptBurst, cost.toNat⟩ :=
    ⟨hpos, hburst, Quota.cost_le_scriptBurst (UInt32.le_iff_toNat_le.mp hcost)⟩
  have hnow := scriptNow_callTime sha1 st key q cost now srv hfl (by omega)
  have hok := Request.call_ok hfl hvalid hmax hnow
  rw [Request.call] at hok
  rw [hrange.argv_eq sha1 st key cost now]
  exact hok

end ScriptCall

/-- **Exact range.** For the arguments that the storage produces from a limited quota and
    a cost up to its maximum burst, for every time and every stored value: over the
    integers, all numbers of a call that is not refused are integers of at most `2⁵³`.
    No call is refused whose time leaves room for two bursts below `2⁵³`, over the
    integers or with any rounding that is exact up to `2⁵³`. -/
theorem script_exact_range (sha1 : List UInt8 → Digest) (st : RedisStorage) (key : StorageKey)
    (q : Quota) (hq : q.isUnlimited = false) (cost : UInt32) (hcost : cost ≤ q.maxBurst)
    (now : Nanos) (srv : Server) :
    let call := st.scriptCall sha1 key q cost now
    (∀ reply, (gcra id srv [call.key] call.argv).2 = .ok reply →
      ExactRun srv [call.key] call.argv reply) ∧
    (callTime st srv now + 2 * call.burstOffset.toNat ≤ 2 ^ 53 →
      ∀ fl, Double.IntegerExact fl →
        ∃ reply, (gcra fl srv [call.key] call.argv).2 = .ok reply) :=
  ⟨fun _ hreply => exactRun_of_ok hreply,
    fun hroom _ hfl => scriptCall_ok sha1 st key q cost now srv hfl hq hcost hroom⟩

/-- Four requests a second on a key that holds an infinity. -/
theorem script_exact_range_infinity :
    ∃ reply, ExactRun ⟨fun _ => some ⟨.string "inf", none⟩, 1790000000000000⟩
      ["trt:free:522b276a356bdf39013dfabea2cd43e141ecc9e8"]
      ["", "250000", "1000000", "1"] reply := by
  have hrange := script_exact_range (fun _ => digestOfAlice) RedisStorage.new ⟨"alice", "free"⟩
    fourPerSecond (by decide) 1 (by decide) 5
    ⟨fun _ => some ⟨.string "inf", none⟩, 1790000000000000⟩
  obtain ⟨reply, hreply⟩ := hrange.2 (by decide) id Double.integerRounding_id.toIntegerExact
  exact ⟨reply, hrange.1 reply hreply⟩

end TowerRateTier.Redis
